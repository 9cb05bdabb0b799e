import Mathlib

/-! Sliding windows over a clock that does not run backwards. A limiter keeps a log of times, drops what
is older than `width` before now, and lets an event happen while fewer than `max` entries are left. Events
and their entries may carry different times, an entry never an earlier one. -/

namespace Window

/-- Every window of `width` that ends at some time holds at most `max` events. -/
def Bounded (width max : Nat) (events : List Nat) : Prop :=
  ∀ T, events.countP (fun t => T - width ≤ t ∧ t ≤ T) ≤ max

/-- From any cutoff that a window ending at `now` or later can have, the log has an entry for each
event. -/
def Covers (width now : Nat) (events entries : List Nat) : Prop :=
  ∀ cutoff, now - width ≤ cutoff →
    events.countP (fun t => cutoff ≤ t) ≤ entries.countP (fun t => cutoff ≤ t)

/-- The log has the events of the window ending at `now`, in their order. -/
def Present (width now : Nat) (events entries : List Nat) : Prop :=
  (events.filter fun t => now - width ≤ t).Sublist entries

variable {width max now : Nat} {events entries : List Nat}

theorem bounded_nil (width max : Nat) : Bounded width max [] := fun _ => Nat.zero_le _

theorem covers_nil (width now : Nat) (entries : List Nat) : Covers width now [] entries :=
  fun _ _ => Nat.zero_le _

theorem Covers.mono (h : Covers width now events entries) {later : Nat} (hlater : now ≤ later) :
    Covers width later events entries :=
  fun cutoff hcutoff => h cutoff (by omega)

/-- Dropping what is older than a window loses nothing. -/
theorem Covers.prune (h : Covers width now events entries) :
    Covers width now events (entries.filter fun t => now - width ≤ t) := by
  intro cutoff hcutoff
  refine (h cutoff hcutoff).trans (Nat.le_of_eq ?_)
  rw [List.countP_filter]
  refine List.countP_congr fun t _ => ?_
  simp only [decide_eq_true_eq, Bool.and_eq_true]
  omega

/-- An event and its entry. -/
theorem Covers.record (h : Covers width now events entries) {event entry : Nat} (hle : event ≤ entry) :
    Covers width now (events ++ [event]) (entries ++ [entry]) := by
  intro cutoff hcutoff
  have hprev := h cutoff hcutoff
  simp only [List.countP_append, List.countP_singleton, decide_eq_true_eq]
  split <;> split <;> omega

/-- An event that happens while the log has room keeps the bound. -/
theorem Bounded.record (h : Bounded width max events) (hcovers : Covers width now events entries)
    (hroom : entries.countP (fun t => now - width ≤ t) < max) {event : Nat} (hnow : now ≤ event) :
    Bounded width max (events ++ [event]) := by
  intro T
  have hprev := h T
  rw [List.countP_append, List.countP_singleton]
  by_cases hin : T - width ≤ event ∧ event ≤ T
  · have hevents : events.countP (fun t => T - width ≤ t ∧ t ≤ T) ≤
        events.countP (fun t => T - width ≤ t) :=
      List.countP_mono_left fun t _ ht => by simp only [decide_eq_true_eq] at ht ⊢; exact ht.1
    have hlog := hcovers (T - width) (by omega)
    have hentries : entries.countP (fun t => T - width ≤ t) ≤ entries.countP (fun t => now - width ≤ t) :=
      List.countP_mono_left fun t _ ht => by simp only [decide_eq_true_eq] at ht ⊢; omega
    simp only [hin, and_self, decide_true, if_true]
    omega
  · simp only [hin, decide_false, Bool.false_eq_true, if_false]
    omega

/-! ### Logs that have the events themselves -/

theorem present_nil (width now : Nat) (entries : List Nat) : Present width now [] entries :=
  List.nil_sublist _

theorem Present.mono (h : Present width now events entries) {later : Nat} (hlater : now ≤ later) :
    Present width later events entries := by
  refine List.Sublist.trans (List.monotone_filter_right events fun t ht => ?_) h
  simp only [decide_eq_true_eq] at ht ⊢
  omega

theorem Present.prune (h : Present width now events entries) :
    Present width now events (entries.filter fun t => now - width ≤ t) := by
  have hfiltered := List.Sublist.filter (fun t => decide (now - width ≤ t)) h
  rwa [List.filter_filter, List.filter_congr fun t _ => Bool.and_self _] at hfiltered

theorem Present.record (h : Present width now events entries) (event : Nat) :
    Present width now (events ++ [event]) (entries ++ [event]) := by
  rw [Present, List.filter_append]
  exact List.Sublist.append h List.filter_sublist

theorem Present.covers (h : Present width now events entries) : Covers width now events entries := by
  intro cutoff hcutoff
  have hlog := List.Sublist.countP_le h (p := fun t => decide (cutoff ≤ t))
  rw [List.countP_filter] at hlog
  refine (Nat.le_of_eq (List.countP_congr fun t _ => ?_)).trans hlog
  simp only [decide_eq_true_eq, Bool.and_eq_true]
  omega

/-! ### Logs that answer like the whole history -/

/-- From any cutoff that a window ending at `now` or later can have, the log has exactly the events. -/
def Faithful (width now : Nat) (events entries : List Nat) : Prop :=
  ∀ cutoff, now - width ≤ cutoff →
    (entries.filter fun t => cutoff ≤ t) = events.filter fun t => cutoff ≤ t

theorem faithful_nil (width now : Nat) : Faithful width now [] [] := fun _ _ => rfl

theorem Faithful.mono (h : Faithful width now events entries) {later : Nat} (hlater : now ≤ later) :
    Faithful width later events entries :=
  fun cutoff hcutoff => h cutoff (by omega)

theorem Faithful.prune (h : Faithful width now events entries) :
    Faithful width now events (entries.filter fun t => now - width ≤ t) := by
  intro cutoff hcutoff
  rw [← h cutoff hcutoff, List.filter_filter]
  refine List.filter_congr fun t _ => ?_
  by_cases ht : cutoff ≤ t
  · have hle : now - width ≤ t := by omega
    simp [ht, hle]
  · simp [ht]

theorem Faithful.record (h : Faithful width now events entries) (event : Nat) :
    Faithful width now (events ++ [event]) (entries ++ [event]) := by
  intro cutoff hcutoff
  rw [List.filter_append, List.filter_append, h cutoff hcutoff]

/-- The entries of the window ending at `now` are as many as the events of it. -/
theorem Faithful.length_filter (h : Faithful width now events entries) (hpast : ∀ t ∈ events, t ≤ now) :
    (entries.filter fun t => now - width ≤ t).length =
      events.countP fun t => now - width ≤ t ∧ t ≤ now := by
  rw [h (now - width) (Nat.le_refl _), ← List.countP_eq_length_filter]
  refine List.countP_congr fun t ht => ?_
  have hle := hpast t ht
  simp [hle]

end Window
