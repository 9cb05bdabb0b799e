import Mathlib

/-! A register that is replaced slot by slot. A writer looks which slots are in use, clears them one after
the other and then takes a new slot for its value; it gives up when a slot it comes to has been cleared by
somebody else. A reader looks for the first slot in use and then reads it. Any number of writers and readers
take their steps in any order. The slots in use turn out to be a queue: a new one joins at the end, and
whoever clears one clears the first. So a writer never loses to more than one other, and one of them always
gets through. -/

namespace Register

variable {ι ν : Type}

/-- The slots in use, in the order they were taken, and the number of the next one. -/
structure Store (ν : Type) where
  live : List (ℕ × ν)
  next : ℕ

namespace Store

def slots (store : Store ν) : List ℕ := store.live.map Prod.fst

def clear (store : Store ν) (slot : ℕ) : Store ν :=
  { store with live := store.live.filter fun entry => entry.1 != slot }

def take (store : Store ν) (value : ν) : Store ν := ⟨store.live ++ [(store.next, value)], store.next + 1⟩

@[simp] theorem slots_take (store : Store ν) (value : ν) :
    (store.take value).slots = store.slots ++ [store.next] := by
  simp [slots, take]

theorem slots_clear (store : Store ν) (slot : ℕ) :
    (store.clear slot).slots = store.slots.filter fun other => other != slot := by
  simp only [slots, clear, List.filter_map]
  rfl

theorem live_of_slots_nil {store : Store ν} (h : store.slots = []) : store.live = [] :=
  List.map_eq_nil_iff.mp h

end Store

/-- Where a writer is: with nothing left to clear it is about to take its slot. -/
inductive Writer where
  | waiting
  | clearing (left : List ℕ)
  | stored
  | lost

inductive Reader (ν : Type) where
  | waiting
  | found (slot : ℕ)
  | read (value : Option ν)
  | lost

inductive Agent (ν : Type) where
  | writer (value : ν) (phase : Writer)
  | reader (phase : Reader ν)

/-- The slots an agent is going to use. -/
def Agent.holds : Agent ν → List ℕ
  | .writer _ (.clearing left) => left
  | .reader (.found slot) => [slot]
  | _ => []

/-- An agent has given up because a slot it came to was not in use any more. -/
def Agent.Lost : Agent ν → Prop
  | .writer _ .lost => True
  | .reader .lost => True
  | _ => False

/-- An agent has come to its end. -/
def Agent.Done : Agent ν → Prop
  | .writer _ .stored => True
  | .writer _ .lost => True
  | .reader (.read _) => True
  | .reader .lost => True
  | _ => False

/-- What an agent can do in its next step. -/
inductive Move (store : Store ν) : Agent ν → Agent ν → Store ν → Prop
  | look (value : ν) : Move store (.writer value .waiting) (.writer value (.clearing store.slots)) store
  | clear (value : ν) (slot : ℕ) (left : List ℕ) (hlive : slot ∈ store.slots) :
      Move store (.writer value (.clearing (slot :: left))) (.writer value (.clearing left)) (store.clear slot)
  | lose (value : ν) (slot : ℕ) (left : List ℕ) (hgone : slot ∉ store.slots) :
      Move store (.writer value (.clearing (slot :: left))) (.writer value .lost) store
  | take (value : ν) : Move store (.writer value (.clearing [])) (.writer value .stored) (store.take value)
  | miss (hempty : store.live = []) : Move store (.reader .waiting) (.reader (.read none)) store
  | find (slot : ℕ) (hlive : slot ∈ store.slots) : Move store (.reader .waiting) (.reader (.found slot)) store
  | read (slot : ℕ) (value : ν) (hlive : (slot, value) ∈ store.live) :
      Move store (.reader (.found slot)) (.reader (.read (some value))) store
  | fail (slot : ℕ) (hgone : slot ∉ store.slots) : Move store (.reader (.found slot)) (.reader .lost) store

structure State (ι ν : Type) where
  store : Store ν
  agents : ι → Agent ν

/-- An agent makes its next step. -/
def Step [DecidableEq ι] (i : ι) (s t : State ι ν) : Prop :=
  ∃ agent, Move s.store (s.agents i) agent t.store ∧ t.agents = Function.update s.agents i agent

/-! ### The queue -/

/-- What a writer has left to clear: slots that others have cleared, and then the first slots in use. All
slots behind these are at least `first`. -/
def Behind (first : ℕ) (slots left : List ℕ) : Prop :=
  ∃ gone ahead rest, left = gone ++ ahead ∧ slots = ahead ++ rest ∧ (∀ x ∈ gone, x ∉ slots) ∧
    ∀ x ∈ rest, first ≤ x

/-- An agent is in line with the store. -/
def Fits (first : ℕ) (store : Store ν) : Agent ν → Prop
  | .writer _ (.clearing left) => (∀ x ∈ left, x < store.next) ∧ Behind first store.slots left
  | .writer _ .stored => ∀ x ∈ store.slots, first ≤ x
  | _ => True

/-- The store is a queue for all agents; the slots from `first` on have been taken by them. -/
structure Orderly (first : ℕ) (s : State ι ν) : Prop where
  nodup : s.store.slots.Nodup
  lt_next : ∀ x ∈ s.store.slots, x < s.store.next
  first_le : first ≤ s.store.next
  agents : ∀ i, Fits first s.store (s.agents i)

theorem Behind.self (first : ℕ) (slots : List ℕ) : Behind first slots slots :=
  ⟨[], slots, [], by simp, by simp, by simp, by simp⟩

section

variable {first : ℕ} {store : Store ν}

/-- A slot that a writer finds in use when it comes to it is the first one. -/
theorem Behind.head {slot : ℕ} {left : List ℕ} (h : Behind first store.slots (slot :: left))
    (hlive : slot ∈ store.slots) :
    ∃ ahead rest, left = ahead ∧ store.slots = slot :: (ahead ++ rest) ∧ ∀ x ∈ rest, first ≤ x := by
  obtain ⟨gone, ahead, rest, hleft, hslots, hgone, hrest⟩ := h
  cases gone with
  | cons x gone =>
      obtain ⟨rfl, _⟩ := List.cons.inj hleft
      exact absurd hlive (hgone slot List.mem_cons_self)
  | nil =>
      rw [List.nil_append] at hleft
      subst hleft
      exact ⟨left, rest, rfl, hslots, hrest⟩

theorem slots_clear_head {slot : ℕ} {rest : List ℕ} (hnodup : store.slots.Nodup)
    (hslots : store.slots = slot :: rest) : (store.clear slot).slots = rest := by
  rw [hslots, List.nodup_cons] at hnodup
  rw [Store.slots_clear, hslots, List.filter_cons_of_neg (by simp), List.filter_eq_self]
  intro x hx
  simp only [bne_iff_ne, ne_eq]
  rintro rfl
  exact hnodup.1 hx

/-- When the first slot is cleared, a writer that still meant to clear it has one more of the slots that
others have cleared. -/
theorem Fits.clear_head {slot : ℕ} {rest : List ℕ} (hnodup : store.slots.Nodup)
    (hslots : store.slots = slot :: rest) {agent : Agent ν} (h : Fits first store agent) :
    Fits first (store.clear slot) agent := by
  have hclear := slots_clear_head hnodup hslots
  have hfewer : ∀ x ∈ rest, x ∈ store.slots := fun x hx => by simp [hslots, hx]
  cases agent with
  | reader phase => trivial
  | writer value phase =>
      cases phase with
      | waiting => trivial
      | lost => trivial
      | stored =>
          rw [Fits, hclear]
          exact fun x hx => h x (hfewer x hx)
      | clearing left =>
          obtain ⟨hlt, gone, ahead, behind, hleft, hqueue, hgone, hbehind⟩ := h
          refine ⟨hlt, ?_⟩
          rw [hclear]
          cases ahead with
          | nil =>
              rw [List.nil_append] at hqueue
              refine ⟨gone, [], rest, hleft, rfl, fun x hx hmem => hgone x hx (hfewer x hmem), fun x hx => ?_⟩
              exact hbehind x (hqueue ▸ hfewer x hx)
          | cons x ahead =>
              rw [hslots, List.cons_append, List.cons.injEq] at hqueue
              obtain ⟨rfl, hrest⟩ := hqueue
              refine ⟨gone ++ [slot], ahead, behind, by simp [hleft], hrest, fun x hx hmem => ?_, hbehind⟩
              rcases List.mem_append.mp hx with hx | hx
              · exact hgone x hx (hfewer x hmem)
              · rw [List.mem_singleton.mp hx] at hmem
                rw [hslots, List.nodup_cons] at hnodup
                exact hnodup.1 hmem

/-- A slot that is taken is behind all others. -/
theorem Fits.take (hfirst : first ≤ store.next) (value : ν) {agent : Agent ν} (h : Fits first store agent) :
    Fits first (store.take value) agent := by
  cases agent with
  | reader phase => trivial
  | writer other phase =>
      cases phase with
      | waiting => trivial
      | lost => trivial
      | stored =>
          rw [Fits, Store.slots_take]
          intro x hx
          rcases List.mem_append.mp hx with hx | hx
          · exact h x hx
          · rwa [List.mem_singleton.mp hx]
      | clearing left =>
          obtain ⟨hlt, gone, ahead, behind, hleft, hqueue, hgone, hbehind⟩ := h
          refine ⟨fun x hx => Nat.lt_succ_of_lt (hlt x hx), gone, ahead, behind ++ [store.next], hleft, ?_, ?_, ?_⟩
          · rw [Store.slots_take, hqueue, List.append_assoc]
          · intro x hx hmem
            rw [Store.slots_take] at hmem
            rcases List.mem_append.mp hmem with hmem | hmem
            · exact hgone x hx hmem
            · have hbound := hlt x (by simp [hleft, hx])
              rw [List.mem_singleton.mp hmem] at hbound
              exact Nat.lt_irrefl _ hbound
          · intro x hx
            rcases List.mem_append.mp hx with hx | hx
            · exact hbehind x hx
            · rwa [List.mem_singleton.mp hx]

end

section

variable [DecidableEq ι] {first : ℕ} {s t : State ι ν} {i : ι}

theorem agents_update {agents : ι → Agent ν} {agent : Agent ν} {P : Agent ν → Prop}
    (hagent : P agent) (hothers : ∀ j, P (agents j)) : ∀ j, P (Function.update agents i agent j) := by
  intro j
  by_cases heq : j = i
  · subst heq
    rwa [Function.update_self]
  · rw [Function.update_of_ne heq]
    exact hothers j

/-- Step. -/
theorem Orderly.step (h : Orderly first s) (hstep : Step i s t) : Orderly first t := by
  obtain ⟨agent, hmove, hagents⟩ := hstep
  have hi := h.agents i
  generalize s.agents i = before at hmove hi
  obtain ⟨store, agents⟩ := t
  subst hagents
  dsimp only at hmove ⊢
  cases hmove with
  | look value =>
      exact ⟨h.nodup, h.lt_next, h.first_le, agents_update ⟨h.lt_next, .self _ _⟩ h.agents⟩
  | lose value slot left hgone => exact ⟨h.nodup, h.lt_next, h.first_le, agents_update trivial h.agents⟩
  | miss hempty => exact ⟨h.nodup, h.lt_next, h.first_le, agents_update trivial h.agents⟩
  | find slot hlive => exact ⟨h.nodup, h.lt_next, h.first_le, agents_update trivial h.agents⟩
  | read slot value hlive => exact ⟨h.nodup, h.lt_next, h.first_le, agents_update trivial h.agents⟩
  | fail slot hgone => exact ⟨h.nodup, h.lt_next, h.first_le, agents_update trivial h.agents⟩
  | clear value slot left hlive =>
      obtain ⟨ahead, rest, rfl, hslots, hrest⟩ := hi.2.head hlive
      have hclear := slots_clear_head h.nodup hslots
      have hnodup := h.nodup
      have hlt := h.lt_next
      rw [hslots, List.nodup_cons] at hnodup
      rw [hslots, List.forall_mem_cons] at hlt
      refine ⟨hclear ▸ hnodup.2, hclear ▸ hlt.2, h.first_le, agents_update ⟨?_, ?_⟩ fun j => ?_⟩
      · exact fun x hx => hi.1 x (List.mem_cons_of_mem _ hx)
      · exact ⟨[], left, rest, rfl, hclear, by simp, hrest⟩
      · exact (h.agents j).clear_head h.nodup hslots
  | take value =>
      obtain ⟨_, gone, ahead, rest, hleft, hslots, _, hrest⟩ := hi
      obtain ⟨rfl, rfl⟩ := List.append_eq_nil_iff.mp hleft.symm
      rw [List.nil_append] at hslots
      refine ⟨?_, fun x hx => ?_, Nat.le_succ_of_le h.first_le, agents_update (fun x hx => ?_) fun j => ?_⟩
      · rw [Store.slots_take, List.nodup_append]
        refine ⟨h.nodup, List.nodup_singleton _, fun x hx y hy heq => ?_⟩
        rw [List.mem_singleton.mp hy] at heq
        exact Nat.lt_irrefl _ (heq ▸ h.lt_next x hx)
      · rw [Store.slots_take] at hx
        rcases List.mem_append.mp hx with hx | hx
        · exact Nat.lt_succ_of_lt (h.lt_next x hx)
        · rw [List.mem_singleton.mp hx]
          exact Nat.lt_succ_self _
      · rw [Store.slots_take] at hx
        rcases List.mem_append.mp hx with hx | hx
        · exact hrest x (hslots ▸ hx)
        · rw [List.mem_singleton.mp hx]
          exact h.first_le
      · exact (h.agents j).take h.first_le value

/-! ### Progress -/

/-- Some writer has nothing in its way, or one has got through and the register is in use, or no writer has
looked yet. -/
def Progress (old : Store ν) (s : State ι ν) : Prop :=
  (∃ i value left, s.agents i = .writer value (.clearing left) ∧ left <+: s.store.slots) ∨
  (s.store.slots ≠ [] ∧ ∃ i value, s.agents i = .writer value .stored) ∨
  (s.store = old ∧ ∀ i value phase, s.agents i = .writer value phase → phase = .waiting)

/-- A step that leaves the store alone and is not a writer's look leaves the writers that matter alone. -/
theorem Progress.of_quiet {old : Store ν} {agent : Agent ν} (h : Progress old s)
    (hstore : t.store = s.store) (hagents : t.agents = Function.update s.agents i agent)
    (hclearing : ∀ value left, s.agents i = .writer value (.clearing left) → ¬left <+: s.store.slots)
    (hstored : ∀ value, s.agents i ≠ .writer value .stored)
    (hwriter : ∀ value phase, agent = .writer value phase →
      ∃ before, s.agents i = .writer value before ∧ before ≠ .waiting) : Progress old t := by
  have hother {j : ι} {other : Agent ν} (hj : s.agents j = other) (hne : j ≠ i) : t.agents j = other := by
    rw [hagents, Function.update_of_ne hne, hj]
  rw [Progress, hstore]
  rcases h with ⟨j, value, left, hj, hstart⟩ | ⟨hused, j, value, hj⟩ | ⟨hold, hwaiting⟩
  · have hne : j ≠ i := by
      rintro rfl
      exact hclearing value left hj hstart
    exact Or.inl ⟨j, value, left, hother hj hne, hstart⟩
  · have hne : j ≠ i := by
      rintro rfl
      exact hstored value hj
    exact Or.inr (Or.inl ⟨hused, j, value, hother hj hne⟩)
  · refine Or.inr (Or.inr ⟨hold, fun j value phase hj => ?_⟩)
    by_cases heq : j = i
    · subst heq
      rw [hagents, Function.update_self] at hj
      obtain ⟨before, hbefore, hne⟩ := hwriter value phase hj
      exact absurd (hwaiting j value before hbefore) hne
    · rw [hagents, Function.update_of_ne heq] at hj
      exact hwaiting j value phase hj

/-- Step: a writer that clears a slot has nothing in its way after it, because it has cleared the first. -/
theorem Progress.step {old : Store ν} (h : Progress old s) (horderly : Orderly first s) (hstep : Step i s t) :
    Progress old t := by
  obtain ⟨agent, hmove, hagents⟩ := hstep
  have hself : t.agents i = agent := by rw [hagents, Function.update_self]
  have hi := horderly.agents i
  generalize hbefore : s.agents i = before at hmove hi
  generalize hafter : t.store = after at hmove
  cases hmove with
  | look value => exact Or.inl ⟨i, value, _, hself, by rw [hafter]⟩
  | clear value slot left hlive =>
      obtain ⟨ahead, rest, rfl, hslots, _⟩ := hi.2.head hlive
      refine Or.inl ⟨i, value, left, hself, ?_⟩
      rw [hafter, slots_clear_head horderly.nodup hslots]
      exact List.prefix_append _ _
  | take value =>
      refine Or.inr (Or.inl ⟨?_, i, value, hself⟩)
      rw [hafter, Store.slots_take]
      simp
  | lose value slot left hgone =>
      refine h.of_quiet hafter hagents (fun other clearing heq hstart => ?_) (by simp [hbefore]) ?_
      · rw [hbefore, Agent.writer.injEq, Writer.clearing.injEq] at heq
        rw [← heq.2] at hstart
        exact hgone (hstart.subset List.mem_cons_self)
      · intro other phase heq
        rw [Agent.writer.injEq] at heq
        exact ⟨_, heq.1 ▸ hbefore, by simp⟩
  | miss hempty => exact h.of_quiet hafter hagents (by simp [hbefore]) (by simp [hbefore]) (by simp)
  | find slot hlive => exact h.of_quiet hafter hagents (by simp [hbefore]) (by simp [hbefore]) (by simp)
  | read slot value hlive => exact h.of_quiet hafter hagents (by simp [hbefore]) (by simp [hbefore]) (by simp)
  | fail slot hgone => exact h.of_quiet hafter hagents (by simp [hbefore]) (by simp [hbefore]) (by simp)

/-! ### Values -/

/-- Every value in the store was there before, or is that of a writer that has stored it; and every value read
was there before or is some writer's. -/
structure Sourced (old : Store ν) (s : State ι ν) : Prop where
  live : ∀ entry ∈ s.store.live, entry ∈ old.live ∨ ∃ i, s.agents i = .writer entry.2 .stored
  read : ∀ i value, s.agents i = .reader (.read (some value)) →
    (∃ slot, (slot, value) ∈ old.live) ∨ ∃ j phase, s.agents j = .writer value phase

/-- A writer stays one, with its value. -/
theorem Step.writer (hstep : Step i s t) {j : ι} {value : ν} {phase : Writer}
    (hj : s.agents j = .writer value phase) : ∃ phase', t.agents j = .writer value phase' := by
  obtain ⟨agent, hmove, hagents⟩ := hstep
  by_cases heq : j = i
  · subst heq
    rw [hj] at hmove
    rw [hagents, Function.update_self]
    generalize t.store = after at hmove
    cases hmove <;> exact ⟨_, rfl⟩
  · exact ⟨phase, by rw [hagents, Function.update_of_ne heq, hj]⟩

/-- One that has stored its value has come to its end. -/
theorem Step.stored (hstep : Step i s t) {j : ι} {value : ν} (hj : s.agents j = .writer value .stored) :
    t.agents j = .writer value .stored := by
  obtain ⟨agent, hmove, hagents⟩ := hstep
  by_cases heq : j = i
  · subst heq
    rw [hj] at hmove
    cases hmove
  · rw [hagents, Function.update_of_ne heq, hj]

/-- What is in the store after a step was there before, or has been stored by it. -/
theorem Step.live (hstep : Step i s t) {entry : ℕ × ν} (hentry : entry ∈ t.store.live) :
    entry ∈ s.store.live ∨ ∃ i, t.agents i = .writer entry.2 .stored := by
  obtain ⟨agent, hmove, hagents⟩ := hstep
  generalize hafter : t.store = after at hmove
  rw [hafter] at hentry
  generalize s.agents i = before at hmove
  cases hmove with
  | clear value slot left hlive => exact Or.inl (List.mem_of_mem_filter hentry)
  | take value =>
      rcases List.mem_append.mp hentry with hentry | hentry
      · exact Or.inl hentry
      · refine Or.inr ⟨i, ?_⟩
        rw [hagents, Function.update_self, List.mem_singleton.mp hentry]
  | look | lose | miss | find | read | fail => exact Or.inl hentry

/-- What has been read after a step had been read before, or is in the store. -/
theorem Step.read (hstep : Step i s t) {j : ι} {value : ν} (hj : t.agents j = .reader (.read (some value))) :
    s.agents j = .reader (.read (some value)) ∨ ∃ slot, (slot, value) ∈ s.store.live := by
  obtain ⟨agent, hmove, hagents⟩ := hstep
  rw [hagents] at hj
  by_cases heq : j = i
  · subst heq
    rw [Function.update_self] at hj
    subst hj
    generalize t.store = after at hmove
    generalize s.agents j = before at hmove
    cases hmove with
    | read slot value hlive => exact Or.inr ⟨slot, hlive⟩
  · rw [Function.update_of_ne heq] at hj
    exact Or.inl hj

theorem Sourced.step {old : Store ν} (h : Sourced old s) (hstep : Step i s t) : Sourced old t where
  live entry hentry := by
    rcases hstep.live hentry with hentry | hstored
    · rcases h.live entry hentry with hold | ⟨i, hi⟩
      · exact Or.inl hold
      · exact Or.inr ⟨i, hstep.stored hi⟩
    · exact Or.inr hstored
  read i value hi := by
    rcases hstep.read hi with hi | ⟨slot, hlive⟩
    · rcases h.read i value hi with hold | ⟨j, phase, hj⟩
      · exact Or.inl hold
      · exact Or.inr ⟨j, hstep.writer hj⟩
    · rcases h.live _ hlive with hold | ⟨j, hj⟩
      · exact Or.inl ⟨slot, hold⟩
      · exact Or.inr ⟨j, hstep.writer hj⟩

/-! ### What one agent does to another -/

/-- A slot that an agent is going to use and that is not in use any more was so before, or another agent
has just cleared it. -/
theorem Orderly.held_step (h : Orderly first s) (hstep : Step i s t) {j : ι} {slot : ℕ}
    (hheld : slot ∈ (t.agents j).holds) (hgone : slot ∉ t.store.slots) :
    (slot ∈ (s.agents j).holds ∧ slot ∉ s.store.slots) ∨
      (i ≠ j ∧ slot ∈ s.store.slots ∧ ∃ value left, s.agents i = .writer value (.clearing (slot :: left))) := by
  obtain ⟨agent, hmove, hagents⟩ := hstep
  have hi := h.agents i
  rw [hagents] at hheld
  generalize hbefore : s.agents i = before at hmove hi
  generalize t.store = after at hmove hgone
  by_cases heq : j = i
  · subst heq
    rw [Function.update_self] at hheld
    cases hmove with
    | look value => exact absurd hheld hgone
    | clear value other left hlive =>
        obtain ⟨ahead, rest, rfl, hslots, _⟩ := hi.2.head hlive
        rw [slots_clear_head h.nodup hslots] at hgone
        exact absurd (List.mem_append_left rest hheld) hgone
    | find other hlive =>
        rw [List.mem_singleton.mp hheld] at hgone
        exact absurd hlive hgone
    | lose | take | miss | read | fail => cases hheld
  · rw [Function.update_of_ne heq] at hheld
    by_cases hlive : slot ∈ s.store.slots
    · refine Or.inr ⟨Ne.symm heq, hlive, ?_⟩
      cases hmove with
      | clear value other left _ =>
          rw [Store.slots_clear] at hgone
          have hsame : slot = other := by simpa [hlive] using hgone
          exact ⟨value, left, hsame ▸ rfl⟩
      | take value =>
          rw [Store.slots_take] at hgone
          exact absurd (List.mem_append_left _ hlive) hgone
      | look | lose | miss | find | read | fail => exact absurd hlive hgone
    · exact Or.inl ⟨hheld, hlive⟩

/-- An agent comes to hold slots when it looks. -/
theorem Step.held (hstep : Step i s t) {j : ι} {slot : ℕ} (hheld : slot ∈ (t.agents j).holds) :
    slot ∈ (s.agents j).holds ∨ (i = j ∧ slot ∈ s.store.slots ∧
      ((∃ value, s.agents j = .writer value .waiting) ∨ s.agents j = .reader .waiting)) := by
  obtain ⟨agent, hmove, hagents⟩ := hstep
  rw [hagents] at hheld
  by_cases heq : j = i
  · subst heq
    rw [Function.update_self] at hheld
    generalize t.store = after at hmove
    generalize s.agents j = before at hmove ⊢
    cases hmove with
    | look value => exact Or.inr ⟨rfl, hheld, Or.inl ⟨value, rfl⟩⟩
    | clear value other left _ => exact Or.inl (List.mem_cons_of_mem other hheld)
    | find other hlive =>
        rw [List.mem_singleton.mp hheld]
        exact Or.inr ⟨rfl, hlive, Or.inr rfl⟩
    | lose | take | miss | read | fail => cases hheld
  · rw [Function.update_of_ne heq] at hheld
    exact Or.inl hheld

/-- An agent gives up at a slot that is not in use. -/
theorem Step.lost (hstep : Step i s t) {j : ι} (hlost : (t.agents j).Lost) :
    (s.agents j).Lost ∨ (i = j ∧ ∃ slot ∉ s.store.slots,
      (∃ value left, s.agents j = .writer value (.clearing (slot :: left))) ∨
        s.agents j = .reader (.found slot)) := by
  obtain ⟨agent, hmove, hagents⟩ := hstep
  rw [hagents] at hlost
  by_cases heq : j = i
  · subst heq
    rw [Function.update_self] at hlost
    generalize t.store = after at hmove
    generalize s.agents j = before at hmove ⊢
    cases hmove with
    | lose value slot left hgone => exact Or.inr ⟨rfl, slot, hgone, Or.inl ⟨value, left, rfl⟩⟩
    | fail slot hgone => exact Or.inr ⟨rfl, slot, hgone, Or.inr rfl⟩
    | look | clear | take | miss | find | read => exact hlost.elim
  · rw [Function.update_of_ne heq] at hlost
    exact Or.inl hlost

/-- The writer that clears the last slot in use has nothing left to do but to take its own; and while no slot
is in use it stays where it is. -/
theorem Orderly.emptied_step (h : Orderly first s) (hstep : Step i s t) (hempty : t.store.live = []) :
    (s.store.live = [] ∧ ∀ j value, s.agents j = .writer value (.clearing []) →
      t.agents j = .writer value (.clearing [])) ∨
    ∃ value slot, s.store.slots = [slot] ∧ s.agents i = .writer value (.clearing [slot]) ∧
      t.agents i = .writer value (.clearing []) := by
  obtain ⟨agent, hmove, hagents⟩ := hstep
  have hi := h.agents i
  generalize hbefore : s.agents i = before at hmove hi
  generalize t.store = after at hmove hempty
  have hstays (hother : ∀ value, before ≠ .writer value (.clearing [])) (j : ι) (value : ν)
      (hj : s.agents j = .writer value (.clearing [])) : t.agents j = .writer value (.clearing []) := by
    have hne : j ≠ i := by
      rintro rfl
      exact hother value (hbefore.symm.trans hj)
    rw [hagents, Function.update_of_ne hne, hj]
  cases hmove with
  | clear value slot left hlive =>
      obtain ⟨ahead, rest, rfl, hslots, _⟩ := hi.2.head hlive
      have hnone : (s.store.clear slot).slots = [] := by rw [Store.slots, hempty, List.map_nil]
      rw [slots_clear_head h.nodup hslots] at hnone
      obtain ⟨rfl, rfl⟩ := List.append_eq_nil_iff.mp hnone
      exact Or.inr ⟨value, slot, hslots, rfl, by rw [hagents, Function.update_self]⟩
  | take value => simp [Store.take] at hempty
  | look | lose | miss | find | read | fail => exact Or.inl ⟨hempty, hstays (by simp)⟩

/-! ### Runs -/

/-- What holds in every state that agents who all start together can reach. -/
structure Reachable (old : Store ν) (s : State ι ν) : Prop where
  orderly : Orderly old.next s
  progress : Progress old s
  sourced : Sourced old s

/-- No agent has taken a step. -/
def Fresh : Agent ν → Prop
  | .writer _ .waiting => True
  | .reader .waiting => True
  | _ => False

omit [DecidableEq ι] in
theorem reachable_start {old : Store ν} (hnodup : old.slots.Nodup) (hlt : ∀ x ∈ old.slots, x < old.next)
    {agents : ι → Agent ν} (hfresh : ∀ i, Fresh (agents i)) : Reachable old ⟨old, agents⟩ where
  orderly :=
    { nodup := hnodup
      lt_next := hlt
      first_le := Nat.le_refl _
      agents := fun i => by
        have hi := hfresh i
        dsimp only
        cases hagent : agents i with
        | reader phase => trivial
        | writer value phase => cases phase <;> simp_all [Fresh, Fits] }
  progress := by
    refine Or.inr (Or.inr ⟨rfl, fun i value phase hi => ?_⟩)
    have hagent := hfresh i
    rw [show agents i = .writer value phase from hi] at hagent
    cases phase <;> first | rfl | exact hagent.elim
  sourced :=
    { live := fun entry hentry => Or.inl hentry
      read := fun i value hi => by
        have hagent := hfresh i
        rw [show agents i = .reader (.read (some value)) from hi] at hagent
        exact hagent.elim }

theorem Reachable.step {old : Store ν} (h : Reachable old s) (hstep : Step i s t) : Reachable old t :=
  ⟨h.orderly.step hstep, h.progress.step h.orderly hstep, h.sourced.step hstep⟩

omit [DecidableEq ι] in
/-- When all have come to their ends and there was a writer, one has got through, and the register holds
values of writers that have. -/
theorem Reachable.settled {old : Store ν} (h : Reachable old s) (hold : ∀ x ∈ old.slots, x < old.next)
    (hdone : ∀ i, (s.agents i).Done) {j : ι} {value : ν} {phase : Writer}
    (hwriter : s.agents j = .writer value phase) :
    s.store.live ≠ [] ∧ ∀ entry ∈ s.store.live, ∃ i, s.agents i = .writer entry.2 .stored := by
  rcases h.progress with ⟨i, value', left, hi, _⟩ | ⟨hused, i, value', hi⟩ | ⟨_, hwaiting⟩
  · have hfalse := hdone i
    rw [hi] at hfalse
    exact hfalse.elim
  · refine ⟨fun hempty => hused (by rw [Store.slots, hempty, List.map_nil]), fun entry hentry => ?_⟩
    rcases h.sourced.live entry hentry with hmem | hstored
    · have hnew := h.orderly.agents i
      rw [hi] at hnew
      have hfirst := hnew entry.1 (List.mem_map_of_mem hentry)
      exact absurd (hold entry.1 (List.mem_map_of_mem hmem)) (Nat.not_lt.mpr hfirst)
    · exact hstored
  · have hfalse := hdone j
    rw [hwriter, hwaiting j value phase hwriter] at hfalse
    exact hfalse.elim

end

end Register
