import EmvaultPkcs11.IdealVendor
import EmvaultPkcs11.RateCounter

/-! The stored counter against the history it stands for. Each call that is let through drops from the
counter what is older than an hour, so the counter has lost most of the history; what it has kept is enough
to decide every later call, whatever limit that call has, as if all successful calls were remembered. -/

open Effect

namespace EmvaultPkcs11

variable {K D : Type}

section

variable (hsm : Hsm K D) (serde : Serde) (label : String)

/-- What the clock shows when a call reads it: after the search, and after the counter has been read if
there is one. -/
def Hsm.sigrateTime (m : Machine K) : Nat :=
  hsm.clock (m.calls + if m.matching (recordQuery (sigrateLabel label)) = [] then 1 else 2)

/-- One call under a policy. -/
def Hsm.checkSigrate (policy : MinimalHsmPolicy) : EStateM (Stop Pkcs11Error) (Machine K) Unit :=
  Program.run hsm.exec (checkAndRecordSigrate serde label policy)

/-- A token together with the times of all calls that have succeeded on it. -/
structure RateState (K : Type) where
  machine : Machine K
  successes : List Nat

/-- The state after one more call. -/
def Hsm.rateStep (s : RateState K) (policy : MinimalHsmPolicy) : RateState K :=
  match (hsm.checkSigrate serde label policy).run s.machine with
  | .ok _ m => ⟨m, s.successes ++ [hsm.sigrateTime label s.machine]⟩
  | .error _ m => ⟨m, s.successes⟩

/-- The state after calls under one policy after the other, from a token without history. -/
def Hsm.rateRun (m : Machine K) (policies : List MinimalHsmPolicy) : RateState K :=
  policies.foldl (hsm.rateStep serde label) ⟨m, []⟩

/-- How many calls have succeeded in the hour up to `now`, both ends included. -/
def RateState.lastHour (s : RateState K) (now : Nat) : Nat :=
  s.successes.countP fun t => now - 3600 ≤ t ∧ t ≤ now

/-! ### One call -/

/-- Reading a record takes one call, or two if there is one. -/
theorem wp_loadRecord_calls {R : Type} (objectLabel : String) (absent : R) (fromSlice : Bytes → Except String R)
    (m : Machine K) :
    wp (Program.run hsm.exec (loadRecord objectLabel absent fromSlice : TokenProgram K D _ _))
      (fun _ m' => m'.calls = m.calls + if m.matching (recordQuery objectLabel) = [] then 1 else 2)
      (fun _ _ => True) m := by
  simp only [loadRecord, Program.wp_run_bind, Session.wp_findObjects]
  refine ⟨fun _ _ => trivial, fun _ => ?_⟩
  rw [Machine.search_eq]
  cases hmatching : m.matching (recordQuery objectLabel) with
  | nil => simp
  | cons entry rest =>
      have hobject : m.tick.object? entry.1 = some entry.2 :=
        m.object?_of_mem_matching
          (show entry ∈ m.matching (recordQuery objectLabel) by simp [hmatching])
      simp only [List.map_cons, Program.wp_run_bind, Session.wp_getAttributes, hobject,
        Program.wp_run_ofExcept, reduceCtorEq, if_false]
      exact ⟨fun _ _ => trivial, fun _ => ⟨fun _ _ => rfl, fun _ _ => trivial⟩⟩

variable {hsm serde label}

/-- A call is let through only if there is room in the counter at the time it reads the clock; then the
counter is replaced by the pruned one with that time, and otherwise the token is as it was. It is refused
for want of room unless what is left in the counter does not fit 32 bits. -/
theorem wp_checkSigrate (hfree : hsm.FaultFree) (hserde : serde.CounterRoundTrip) {policy : MinimalHsmPolicy}
    {max : UInt32} (hmax : policy.maxSignaturesPerHour = some max) {m : Machine K} {counter : SigRateCounter}
    (hstored : hsm.storedCounter serde label m = .ok counter) :
    let now := hsm.sigrateTime label m
    wp (hsm.checkSigrate serde label policy)
      (fun _ m' => (counter.prune now).timestamps.length < max.toNat ∧
        ∃ c bytes, m.calls ≤ c ∧ c ≤ m'.calls ∧ now = hsm.clock c ∧
          serde.counterFromSlice bytes = .ok ((counter.prune now).record now) ∧
          Machine.Replaces (sigrateLabel label) bytes m m')
      (fun e m' => m.Ticked m' ∧ ((counter.prune now).timestamps.length < 2 ^ 32 →
        ¬(counter.prune now).timestamps.length < max.toNat ∧
          ∃ count, e = .err (.policyViolation (sigrateCeiling count max)))) m := by
  intro now
  simp only [Hsm.checkSigrate, checkAndRecordSigrate, hmax, recordSigrate, loadSigrate, Program.wp_run_bind]
  refine wp_mono (wp_and (wp_loadRecord hsm (sigrateLabel label) .default serde.counterFromSlice m)
    (wp_loadRecord_calls hsm (sigrateLabel label) .default serde.counterFromSlice m))
    (fun counter' m₁ h₁ => ?_) (fun e m₁ h₁ => ?_)
  case refine_2 =>
      have herror := h₁.1.1 hfree
      rw [Hsm.storedCounter, herror] at hstored
      cases hstored
  obtain ⟨⟨hstored', hticked⟩, hcalls⟩ := h₁
  obtain rfl : counter' = counter := Except.ok.inj (hstored'.symm.trans hstored)
  rw [Session.wp_now]
  have hnow : hsm.clock m₁.calls = now := by rw [hcalls]; rfl
  have hread : m.Ticked m₁.tick := hticked.trans (.tick m₁)
  rw [hnow]
  unfold SigRateCounter.pruneAndCount
  by_cases hfits : (counter'.prune now).timestamps.length < 2 ^ 32
  case neg =>
      rw [if_neg hfits]
      exact ⟨hread, fun h => absurd h hfits⟩
  rw [if_pos hfits, Program.ofExcept, Program.wp_run_done]
  dsimp only
  by_cases hroom : (counter'.prune now).timestamps.length < max.toNat
  · rw [if_neg (Nat.not_le.mpr hroom)]
    simp only [saveSigrate, Program.wp_run_bind]
    obtain ⟨bytes, htoVec, hfromSlice⟩ := hserde ((counter'.prune now).record now)
    refine wp_mono (wp_saveRecord hsm (sigrateLabel label) serde.counterToVec _ m₁.tick)
      (fun _ m₂ h₂ => ?_) (fun e m₂ h₂ => ?_)
    · obtain ⟨bytes', htoVec', hreplaces⟩ := h₂
      obtain rfl : bytes' = bytes := Except.ok.inj (htoVec'.symm.trans htoVec)
      exact ⟨hroom, m₁.calls, bytes', hticked.calls, (Nat.le_succ _).trans hreplaces.calls, hnow.symm,
        hfromSlice, hreplaces.of_ticked hread⟩
    · obtain ⟨reason, htoVec', _⟩ := h₂.2 hfree
      rw [htoVec] at htoVec'
      cases htoVec'
  · rw [if_pos (Nat.not_lt.mp hroom)]
    exact ⟨hread, fun _ => ⟨hroom, _, rfl⟩⟩

/-! ### Runs of calls -/

/-- The stored counter stands for the history: it is made of times of successful calls, oldest first, it has
all of them that a call from now on can look at, and its length fits 32 bits. -/
structure Tracks (hsm : Hsm K D) (serde : Serde) (label : String) (s : RateState K) : Prop where
  past : ∀ t ∈ s.successes, t ≤ hsm.clock s.machine.calls
  sorted : s.successes.Pairwise (· ≤ ·)
  counter : ∃ counter, hsm.storedCounter serde label s.machine = .ok counter ∧
    counter.timestamps.length < 2 ^ 32 ∧ counter.timestamps.Sublist s.successes ∧
    Window.Faithful 3600 (hsm.clock s.machine.calls) s.successes counter.timestamps

theorem tracks_start {m : Machine K} (hempty : m.matching (recordQuery (sigrateLabel label)) = []) :
    Tracks hsm serde label ⟨m, []⟩ where
  past := by simp
  sorted := .nil
  counter := ⟨.default, by simp [Hsm.storedCounter, Hsm.stored, Hsm.records, hempty], by simp [SigRateCounter.default],
    List.nil_sublist _, Window.faithful_nil _ _⟩

/-- A refused call keeps it. -/
theorem Tracks.ticked {s : RateState K} (h : Tracks hsm serde label s) (hclock : Monotone hsm.clock)
    {m : Machine K} (hticked : s.machine.Ticked m) : Tracks hsm serde label ⟨m, s.successes⟩ := by
  obtain ⟨counter, hstored, hlength, hsublist, hfaithful⟩ := h.counter
  refine ⟨fun t ht => (h.past t ht).trans (hclock hticked.calls), h.sorted, counter, ?_, hlength, hsublist,
    hfaithful.mono (hclock hticked.calls)⟩
  rw [← hstored]
  exact hsm.stored_eq_of_dataObjects _ _ hticked.dataObjects _

/-- A successful one keeps it. -/
theorem Tracks.recorded {s : RateState K} (h : Tracks hsm serde label s) (hclock : Monotone hsm.clock)
    {max : UInt32} {counter : SigRateCounter} (hstored : hsm.storedCounter serde label s.machine = .ok counter)
    {c now : Nat} {m : Machine K} {bytes : Bytes} (hroom : (counter.prune now).timestamps.length < max.toNat)
    (hfrom : s.machine.calls ≤ c) (hto : c ≤ m.calls) (hnow : now = hsm.clock c)
    (hbytes : serde.counterFromSlice bytes = .ok ((counter.prune now).record now))
    (hreplaces : Machine.Replaces (sigrateLabel label) bytes s.machine m) :
    Tracks hsm serde label ⟨m, s.successes ++ [now]⟩ := by
  obtain ⟨counter', hstored', _, hsublist, hfaithful⟩ := h.counter
  obtain rfl : counter' = counter := Except.ok.inj (hstored'.symm.trans hstored)
  have hlater : now ≤ hsm.clock m.calls := hnow ▸ hclock hto
  have hpast (t : Nat) (ht : t ∈ s.successes) : t ≤ now := by
    rw [hnow]
    exact (h.past t ht).trans (hclock hfrom)
  refine ⟨fun t ht => ?_, ?_, (counter'.prune now).record now, hreplaces.stored_self hsm hbytes _, ?_, ?_, ?_⟩
  · rcases List.mem_append.mp ht with ht | ht
    · exact (hpast t ht).trans hlater
    · rw [List.mem_singleton.mp ht]
      exact hlater
  · refine List.pairwise_append.mpr ⟨h.sorted, List.pairwise_singleton _ _, fun t ht u hu => ?_⟩
    rw [List.mem_singleton.mp hu]
    exact hpast t ht
  · have hlimit := max.toNat_lt
    simp only [SigRateCounter.record, List.length_append, List.length_singleton]
    omega
  · exact List.Sublist.append (List.filter_sublist.trans hsublist) (List.Sublist.refl _)
  · have hthen := hfaithful.mono (hclock hfrom)
    rw [← hnow] at hthen
    exact (hthen.prune.record now).mono hlater

/-- Step: a call under a ceiling keeps the counter in line with the history. -/
theorem Tracks.step {s : RateState K} (h : Tracks hsm serde label s) (hfree : hsm.FaultFree)
    (hclock : Monotone hsm.clock) (hserde : serde.CounterRoundTrip) {policy : MinimalHsmPolicy}
    (hceiling : policy.maxSignaturesPerHour ≠ none) :
    Tracks hsm serde label (hsm.rateStep serde label s policy) := by
  obtain ⟨max, hmax⟩ := Option.ne_none_iff_exists'.mp hceiling
  obtain ⟨counter, hstored, _⟩ := h.counter
  have hcall := wp_checkSigrate hfree hserde hmax hstored
  unfold Hsm.rateStep
  cases hrun : (hsm.checkSigrate serde label policy).run s.machine with
  | ok _ m =>
      obtain ⟨hroom, c, bytes, hfrom, hto, hnow, hbytes, hreplaces⟩ := wp_of_run_ok hcall hrun
      exact h.recorded hclock hstored hroom hfrom hto hnow hbytes hreplaces
  | error e m => exact h.ticked hclock (wp_of_run_error hcall hrun).1

/-- Run: so do calls one after the other. -/
theorem tracks_rateRun (hfree : hsm.FaultFree) (hclock : Monotone hsm.clock) (hserde : serde.CounterRoundTrip)
    {m : Machine K} (hempty : m.matching (recordQuery (sigrateLabel label)) = [])
    {policies : List MinimalHsmPolicy} (hceilings : ∀ policy ∈ policies, policy.maxSignaturesPerHour ≠ none) :
    Tracks hsm serde label (hsm.rateRun serde label m policies) := by
  have hrun (policies : List MinimalHsmPolicy) :
      ∀ s, (∀ policy ∈ policies, policy.maxSignaturesPerHour ≠ none) → Tracks hsm serde label s →
        Tracks hsm serde label (policies.foldl (hsm.rateStep serde label) s) := by
    induction policies with
    | nil => exact fun s _ h => h
    | cons policy policies ih =>
        intro s hceilings h
        rw [List.forall_mem_cons] at hceilings
        exact ih _ hceilings.2 (h.step hfree hclock hserde hceilings.1)
  exact hrun policies _ hceilings (tracks_start hempty)

end

/-- After any calls on one label under any ceilings, from a token without a counter, a call at time `t` is let
through exactly if fewer than its own limit have been let through in the hour up to `t`; then at most that
many have with it. A call that is refused is refused by the policy and changes no object; the stored
timestamps are sorted, and counting them never panics. -/
theorem sigrate_matches_history (hsm : Hsm K D) (serde : Serde) (label : String) (hfree : hsm.FaultFree)
    (hclock : Monotone hsm.clock) (hserde : serde.CounterRoundTrip) {m : Machine K}
    (hempty : m.matching (recordQuery (sigrateLabel label)) = []) {policies : List MinimalHsmPolicy}
    (hceilings : ∀ policy ∈ policies, policy.maxSignaturesPerHour ≠ none) {policy : MinimalHsmPolicy}
    {max : UInt32} (hmax : policy.maxSignaturesPerHour = some max) :
    let s := hsm.rateRun serde label m policies
    let t := hsm.sigrateTime label s.machine
    ((∃ m', (hsm.checkSigrate serde label policy).run s.machine = .ok () m') ↔ s.lastHour t < max.toNat) ∧
    (∀ m', (hsm.checkSigrate serde label policy).run s.machine = .ok () m' →
      (hsm.rateStep serde label s policy).lastHour t ≤ max.toNat) ∧
    (∀ e m', (hsm.checkSigrate serde label policy).run s.machine = .error e m' →
      (∃ reason, e = .err (.policyViolation reason)) ∧ m'.objects = s.machine.objects) ∧
    ∃ counter, hsm.storedCounter serde label s.machine = .ok counter ∧
      counter.timestamps.Pairwise (· ≤ ·) ∧
      ∀ now message, counter.pruneAndCount (ε := Pkcs11Error) now ≠ .error (.panic message) := by
  intro s t
  have h : Tracks hsm serde label s := tracks_rateRun hfree hclock hserde hempty hceilings
  obtain ⟨counter, hstored, hlength, hsublist, hfaithful⟩ := h.counter
  have hcall := wp_checkSigrate hfree hserde hmax hstored
  have hfits (now : Nat) : (counter.prune now).timestamps.length < 2 ^ 32 :=
    (List.length_filter_le _ _).trans_lt hlength
  have hlater : hsm.clock s.machine.calls ≤ t := hclock (Nat.le_add_right _ _)
  have hcount : (counter.prune t).timestamps.length = s.lastHour t :=
    (hfaithful.mono hlater).length_filter fun u hu => (h.past u hu).trans hlater
  refine ⟨⟨?_, fun hroom => ?_⟩, fun m' hrun => ?_, fun e m' hrun => ?_, counter, hstored, ?_, ?_⟩
  · rintro ⟨m', hrun⟩
    rw [← hcount]
    exact (wp_of_run_ok hcall hrun).1
  · cases hrun : (hsm.checkSigrate serde label policy).run s.machine with
    | ok _ m' => exact ⟨m', rfl⟩
    | error e m' =>
        have hfull := ((wp_of_run_error hcall hrun).2 (hfits t)).1
        rw [hcount] at hfull
        exact absurd hroom hfull
  · have hroom := (wp_of_run_ok hcall hrun).1
    rw [hcount] at hroom
    simp only [Hsm.rateStep, hrun, RateState.lastHour, List.countP_append, List.countP_singleton]
    simp only [RateState.lastHour] at hroom
    split <;> omega
  · obtain ⟨hticked, hrefused⟩ := wp_of_run_error hcall hrun
    obtain ⟨_, count, he⟩ := hrefused (hfits t)
    exact ⟨⟨_, he⟩, hticked.objects⟩
  · exact List.Pairwise.sublist hsublist h.sorted
  · intro now message hpanic
    rw [SigRateCounter.pruneAndCount, if_pos (hfits now)] at hpanic
    cases hpanic

/-- A ceiling of one has been used up when a ceiling of two has not. -/
theorem second_call_within_the_hour :
    let s := IdealVendor.token.rateRun IdealVendor.serde "a" .empty [⟨none, some 1, none⟩]
    (∃ m, (IdealVendor.token.checkSigrate IdealVendor.serde "a" ⟨none, some 2, none⟩).run s.machine = .ok () m) ∧
    ¬∃ m, (IdealVendor.token.checkSigrate IdealVendor.serde "a" ⟨none, some 1, none⟩).run s.machine = .ok () m := by
  intro s
  have hclock : Monotone IdealVendor.token.clock := monotone_id
  have hempty : (Machine.empty : Machine IdealVendor.Key).matching (recordQuery (sigrateLabel "a")) = [] := rfl
  have hceilings : ∀ policy ∈ [(⟨none, some 1, none⟩ : MinimalHsmPolicy)], policy.maxSignaturesPerHour ≠ none := by
    simp
  have hcall {policy : MinimalHsmPolicy} {max : UInt32} (hmax : policy.maxSignaturesPerHour = some max) :=
    (sigrate_matches_history IdealVendor.token IdealVendor.serde "a" (fun _ => rfl) hclock
      IdealVendor.counterRoundTrip hempty hceilings hmax).1
  have hcount : s.lastHour (IdealVendor.token.sigrateTime "a" s.machine) = 1 := by decide +kernel
  refine ⟨(hcall rfl).mpr ?_, fun h => ?_⟩
  · rw [hcount]
    decide
  · have hroom := (hcall rfl).mp h
    rw [hcount] at hroom
    exact absurd hroom (by decide)

end EmvaultPkcs11
