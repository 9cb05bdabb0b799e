import EmvaultPkcs11.RecordRace

/-! What sessions that read and replace one record at the same time do to each other. The history of a race
says who has found which objects and who has destroyed them. So an access that fails has lost the object to
another session's replacement, and where the record is missing the session that destroyed the last object is
about to store its own. -/

open Effect Program

namespace EmvaultPkcs11

variable {K D R ι : Type}

section

variable {hsm : Hsm K D} {objectLabel : String} {absent : R} {toVec : R → Except String Bytes}
  {fromSlice : Bytes → Except String R} {accesses : ι → RecordAccess R}
  {s : Race (Session K D) (Stop Pkcs11Error) (Option R) (Machine K) ι}
  {a : Register.State ι (Except (Stop Pkcs11Error) R)}

/-! ### Where an agent is, its thread is -/

/-- A thread that has ended has an agent that has, and has ended in one of three ways. -/
theorem InStep.ended (h : InStep hsm objectLabel absent toVec fromSlice accesses s a) {i : ι}
    (hended : (s.threads i).Ended) : (a.agents i).Done ∧
      ((accesses i = .load ∧ ∃ value, a.agents i = .reader (.read value) ∧ s.threads i = readEnd absent value) ∨
        ((a.agents i).Lost ∧ s.threads i = gone) ∨ s.threads i = .done none) := by
  have hi := h.threads i
  generalize s.threads i = thread at hi hended ⊢
  generalize a.agents i = agent at hi ⊢
  generalize accesses i = access at hi ⊢
  cases hi with
  | loading =>
      rw [load_program] at hended
      exact hended.elim
  | found handle =>
      rw [readRest_eq absent] at hended
      exact hended.elim
  | saving record => exact hended.elim
  | clearing record left bytes hbytes =>
      cases left with
      | nil =>
          rw [clearRest_nil] at hended
          exact hended.elim
      | cons handle left =>
          rw [clearRest_cons] at hended
          exact hended.elim
  | loaded value => exact ⟨trivial, Or.inl ⟨rfl, value, rfl, rfl⟩⟩
  | loadLost => exact ⟨trivial, Or.inr (Or.inl ⟨trivial, rfl⟩)⟩
  | saved record => exact ⟨trivial, Or.inr (Or.inr rfl)⟩
  | saveLost record => exact ⟨trivial, Or.inr (Or.inl ⟨trivial, rfl⟩)⟩

/-- A writer that has stored its value is a replacement that has succeeded. -/
theorem InStep.stored (h : InStep hsm objectLabel absent toVec fromSlice accesses s a) {i : ι}
    {value : Except (Stop Pkcs11Error) R} (hagent : a.agents i = .writer value .stored) :
    ∃ record, accesses i = .save record ∧ s.threads i = .done none ∧ value = .ok record := by
  have hi := h.threads i
  rw [hagent] at hi
  generalize s.threads i = thread at hi
  generalize accesses i = access at hi
  cases hi with
  | saved record => exact ⟨record, rfl, rfl, rfl⟩

/-- A replacement has a writer for its agent. -/
theorem InStep.exists_writer (h : InStep hsm objectLabel absent toVec fromSlice accesses s a) {i : ι}
    {record : R} (haccess : accesses i = .save record) : ∃ value phase, a.agents i = .writer value phase := by
  have hi := h.threads i
  rw [haccess] at hi
  generalize s.threads i = thread at hi
  generalize a.agents i = agent at hi ⊢
  cases hi <;> exact ⟨_, _, rfl⟩

/-- A writer belongs to a replacement by its value. -/
theorem InStep.writer (h : InStep hsm objectLabel absent toVec fromSlice accesses s a) {i : ι}
    {value : Except (Stop Pkcs11Error) R} {phase : Register.Writer} (hagent : a.agents i = .writer value phase) :
    ∃ record, accesses i = .save record ∧ value = .ok record := by
  have hi := h.threads i
  rw [hagent] at hi
  generalize s.threads i = thread at hi
  generalize accesses i = access at hi
  cases hi <;> exact ⟨_, rfl, rfl⟩

/-- A thread whose agent is to look makes a search next. -/
theorem InStep.calls_search (h : InStep hsm objectLabel absent toVec fromSlice accesses s a)
    (hround : ∀ record, ∃ bytes, toVec record = .ok bytes ∧ fromSlice bytes = .ok record) {i : ι}
    (hagent : (∃ value, a.agents i = .writer value .waiting) ∨ a.agents i = .reader .waiting) :
    ∃ next, s.threads i = .call (I := Session K D) (.findObjects (recordQuery objectLabel)) next := by
  have hi := h.threads i
  generalize s.threads i = thread at hi
  generalize accesses i = access at hi
  rcases hagent with ⟨value, hagent⟩ | hagent
  · rw [hagent] at hi
    cases hi with
    | saving record =>
        obtain ⟨bytes, htoVec, _⟩ := hround record
        exact ⟨_, save_program htoVec⟩
  · rw [hagent] at hi
    cases hi with
    | loading => exact ⟨_, load_program⟩

/-- A thread whose agent is to read a slot reads the object next. -/
theorem InStep.calls_read (h : InStep hsm objectLabel absent toVec fromSlice accesses s a) {i : ι}
    {handle : ObjectHandle} (hagent : a.agents i = .reader (.found handle)) :
    ∃ next, s.threads i = .call (I := Session K D) (.getAttributes handle [.value]) next := by
  have hi := h.threads i
  rw [hagent] at hi
  generalize s.threads i = thread at hi
  generalize accesses i = access at hi
  cases hi with
  | found => exact ⟨_, readRest_eq absent handle⟩

/-- A thread whose agent is to clear a slot destroys the object next. -/
theorem InStep.calls_destroy (h : InStep hsm objectLabel absent toVec fromSlice accesses s a) {i : ι}
    {value : Except (Stop Pkcs11Error) R} {handle : ObjectHandle} {left : List ObjectHandle}
    (hagent : a.agents i = .writer value (.clearing (handle :: left))) :
    ∃ next, s.threads i = .call (I := Session K D) (.destroyObject handle) next := by
  have hi := h.threads i
  rw [hagent] at hi
  generalize s.threads i = thread at hi
  generalize accesses i = access at hi
  cases hi with
  | clearing record _ bytes hbytes => exact ⟨_, clearRest_cons bytes handle left⟩

/-- A thread whose agent is to take a slot creates its object next. -/
theorem InStep.calls_create (h : InStep hsm objectLabel absent toVec fromSlice accesses s a) {i : ι}
    {value : Except (Stop Pkcs11Error) R} (hagent : a.agents i = .writer value (.clearing [])) :
    ∃ record bytes next, accesses i = .save record ∧ fromSlice bytes = .ok record ∧
      s.threads i = .call (I := Session K D) (.createObject (recordTemplate objectLabel bytes)) next := by
  have hi := h.threads i
  rw [hagent] at hi
  generalize s.threads i = thread at hi
  generalize accesses i = access at hi
  cases hi with
  | clearing record _ bytes hbytes => exact ⟨record, bytes, _, rfl, hbytes, clearRest_nil bytes⟩

/-- The slots in use are what a search finds. -/
theorem InStep.slots_eq (h : InStep hsm objectLabel absent toVec fromSlice accesses s a) :
    a.store.slots = s.device.search (recordQuery objectLabel) := by
  rw [h.store, slots_register]

/-- A slot in use is an object's handle. -/
theorem InStep.exists_object (h : InStep hsm objectLabel absent toVec fromSlice accesses s a)
    {handle : ObjectHandle} (hslot : handle ∈ a.store.slots) :
    ∃ object, s.device.object? handle = some object := by
  cases hobject : s.device.object? handle with
  | some object => exact ⟨object, rfl⟩
  | none =>
      rw [h.store] at hslot
      exact absurd hslot (not_mem_slots hobject)

/-- A handle an agent holds that is not a slot in use is no object's any more. -/
theorem InStep.object?_of_held (h : InStep hsm objectLabel absent toVec fromSlice accesses s a) {i : ι}
    {handle : ObjectHandle} (hheld : handle ∈ (a.agents i).holds) (hslot : handle ∉ a.store.slots) :
    s.device.object? handle = none := by
  cases hobject : s.device.object? handle with
  | none => rfl
  | some object =>
      have hlive : _ ∈ (hsm.register objectLabel fromSlice s.device).live :=
        mem_register hobject (h.held i handle hheld object hobject)
      rw [h.store] at hslot
      exact absurd (List.mem_map_of_mem hlive) hslot

theorem records_eq (m : Machine K) :
    hsm.records objectLabel fromSlice m = (hsm.register objectLabel fromSlice m).live.map Prod.snd := by
  rw [Hsm.records, Hsm.register, List.map_map]
  rfl

end

/-! ### Histories -/

section

variable [DecidableEq ι] (hsm : Hsm K D) (objectLabel : String) (accesses : ι → RecordAccess R)
  (start : Race (Session K D) (Stop Pkcs11Error) (Option R) (Machine K) ι) (schedule : List ι)

/-- In the course of the schedule session `i` has found an object of the record. -/
def Found (i : ι) (handle : ObjectHandle) : Prop :=
  start.Made hsm.exec schedule i fun call m =>
    call = .findObjects (recordQuery objectLabel) ∧ handle ∈ m.search (recordQuery objectLabel)

/-- In the course of the schedule session `i` has destroyed an object to store a record of its own. -/
def Destroyed (i : ι) (handle : ObjectHandle) : Prop :=
  (∃ record, accesses i = .save record) ∧
    start.Made hsm.exec schedule i fun call m =>
      call = .destroyObject handle ∧ ∃ object, m.object? handle = some object

/-- Session `i` has lost an object: it came to read or to destroy one that it had found, and the replacement
of another session had destroyed it by then. -/
def LostObject (i : ι) : Prop :=
  ∃ before after handle call next, schedule = before ++ i :: after ∧
    (start.run hsm.exec before).threads i = .call call next ∧
    (call = .getAttributes handle [.value] ∨ call = .destroyObject handle) ∧
    (start.run hsm.exec before).device.object? handle = none ∧
    Found hsm objectLabel start before i handle ∧
    ∃ j, j ≠ i ∧ Destroyed hsm accesses start before j handle

/-- Session `i` has emptied the record: it destroyed the last object there was, and there has been none since. -/
def Emptied (i : ι) : Prop :=
  ∃ before after handle next, schedule = before ++ i :: after ∧
    (start.run hsm.exec before).threads i = .call (I := Session K D) (.destroyObject handle) next ∧
    (start.run hsm.exec before).device.search (recordQuery objectLabel) = [handle] ∧
    ∀ rest, rest <+: after → (start.run hsm.exec (before ++ i :: rest)).device.search (recordQuery objectLabel) = []

variable (absent : R) (toVec : R → Except String Bytes) (fromSlice : Bytes → Except String R)

/-- The register after a schedule, with what the agents owe to each other. -/
structure History (a : Register.State ι (Except (Stop Pkcs11Error) R)) : Prop where
  reachable : Register.Reachable (hsm.register objectLabel fromSlice start.device) a
  inStep : InStep hsm objectLabel absent toVec fromSlice accesses (start.run hsm.exec schedule) a
  found : ∀ i, ∀ handle ∈ (a.agents i).holds, Found hsm objectLabel start schedule i handle
  destroyed : ∀ i, ∀ handle ∈ (a.agents i).holds, handle ∉ a.store.slots →
    ∃ j, j ≠ i ∧ Destroyed hsm accesses start schedule j handle
  lost : ∀ i, (a.agents i).Lost → LostObject hsm objectLabel accesses start schedule i
  emptied : a.store.live = [] → start.device.search (recordQuery objectLabel) = [] ∨
    ∃ i value, a.agents i = .writer value (.clearing []) ∧ Emptied hsm objectLabel start schedule i

variable {hsm objectLabel accesses start schedule absent toVec fromSlice}

theorem Destroyed.later {j : ι} {handle : ObjectHandle} (h : Destroyed hsm accesses start schedule j handle)
    (i : ι) : Destroyed hsm accesses start (schedule ++ [i]) j handle :=
  ⟨h.1, h.2.later i⟩

theorem LostObject.later {j : ι} (h : LostObject hsm objectLabel accesses start schedule j) (i : ι) :
    LostObject hsm objectLabel accesses start (schedule ++ [i]) j := by
  obtain ⟨before, after, handle, call, next, rfl, hrest⟩ := h
  exact ⟨before, after ++ [i], handle, call, next, by simp, hrest⟩

theorem Emptied.later {j : ι} (h : Emptied hsm objectLabel start schedule j) {i : ι}
    (hempty : (start.run hsm.exec (schedule ++ [i])).device.search (recordQuery objectLabel) = []) :
    Emptied hsm objectLabel start (schedule ++ [i]) j := by
  obtain ⟨before, after, handle, next, rfl, hthread, hlast, hsince⟩ := h
  refine ⟨before, after ++ [i], handle, next, by simp, hthread, hlast, fun rest hrest => ?_⟩
  rcases List.prefix_concat_iff.mp hrest with rfl | hrest
  · simpa using hempty
  · exact hsince rest hrest

/-- A history in which nothing has happened but a turn of a thread that had ended. -/
theorem History.idle {a : Register.State ι (Except (Stop Pkcs11Error) R)} {i : ι}
    (h : History hsm objectLabel accesses start schedule absent toVec fromSlice a)
    (hin : InStep hsm objectLabel absent toVec fromSlice accesses (start.run hsm.exec (schedule ++ [i])) a) :
    History hsm objectLabel accesses start (schedule ++ [i]) absent toVec fromSlice a where
  reachable := h.reachable
  inStep := hin
  found j handle hheld := (h.found j handle hheld).later i
  destroyed j handle hheld hslot := by
    obtain ⟨k, hne, hdestroyed⟩ := h.destroyed j handle hheld hslot
    exact ⟨k, hne, hdestroyed.later i⟩
  lost j hlost := (h.lost j hlost).later i
  emptied hempty := by
    rcases h.emptied hempty with hold | ⟨j, value, hagent, hemptied⟩
    · exact Or.inl hold
    · refine Or.inr ⟨j, value, hagent, hemptied.later ?_⟩
      rw [← hin.slots_eq, Register.Store.slots, hempty, List.map_nil]

/-- Step. -/
theorem History.step {a a' : Register.State ι (Except (Stop Pkcs11Error) R)} {i : ι}
    (hround : ∀ record, ∃ bytes, toVec record = .ok bytes ∧ fromSlice bytes = .ok record)
    (h : History hsm objectLabel accesses start schedule absent toVec fromSlice a)
    (hstep : Register.Step i a a')
    (hin : InStep hsm objectLabel absent toVec fromSlice accesses (start.run hsm.exec (schedule ++ [i])) a') :
    History hsm objectLabel accesses start (schedule ++ [i]) absent toVec fromSlice a' where
  reachable := h.reachable.step hstep
  inStep := hin
  found j handle hheld := by
    rcases hstep.held hheld with hheld | ⟨rfl, hslot, hwaiting⟩
    · exact (h.found j handle hheld).later i
    · obtain ⟨next, hthread⟩ := h.inStep.calls_search hround hwaiting
      exact Race.Made.now hthread ⟨rfl, h.inStep.slots_eq ▸ hslot⟩
  destroyed j handle hheld hslot := by
    rcases h.reachable.orderly.held_step hstep hheld hslot with ⟨hheld, hslot⟩ | ⟨hne, hslot, value, left, hagent⟩
    · obtain ⟨k, hne, hdestroyed⟩ := h.destroyed j handle hheld hslot
      exact ⟨k, hne, hdestroyed.later i⟩
    · obtain ⟨record, haccess, _⟩ := h.inStep.writer hagent
      obtain ⟨next, hthread⟩ := h.inStep.calls_destroy hagent
      exact ⟨i, hne, ⟨record, haccess⟩,
        Race.Made.now hthread ⟨rfl, h.inStep.exists_object hslot⟩⟩
  lost j hlost := by
    rcases hstep.lost hlost with hlost | ⟨rfl, handle, hslot, hagent⟩
    · exact (h.lost j hlost).later i
    · have hheld : handle ∈ (a.agents i).holds := by
        rcases hagent with ⟨value, left, hagent⟩ | hagent <;> simp [hagent, Register.Agent.holds]
      have hgone := h.inStep.object?_of_held hheld hslot
      have hcall : ∃ call next, (start.run hsm.exec schedule).threads i = .call call next ∧
          (call = .getAttributes handle [.value] ∨ call = .destroyObject handle) := by
        rcases hagent with ⟨value, left, hagent⟩ | hagent
        · obtain ⟨next, hthread⟩ := h.inStep.calls_destroy hagent
          exact ⟨_, next, hthread, Or.inr rfl⟩
        · obtain ⟨next, hthread⟩ := h.inStep.calls_read hagent
          exact ⟨_, next, hthread, Or.inl rfl⟩
      obtain ⟨call, next, hthread, huses⟩ := hcall
      exact ⟨schedule, [], handle, call, next, rfl, hthread, huses, hgone, h.found i handle hheld,
        h.destroyed i handle hheld hslot⟩
  emptied hempty := by
    have hmissing : (start.run hsm.exec (schedule ++ [i])).device.search (recordQuery objectLabel) = [] := by
      rw [← hin.slots_eq, Register.Store.slots, hempty, List.map_nil]
    rcases h.reachable.orderly.emptied_step hstep hempty with ⟨hlive, hstays⟩ | ⟨value, handle, hslots, hbefore, hafter⟩
    · rcases h.emptied hlive with hold | ⟨j, value, hagent, hemptied⟩
      · exact Or.inl hold
      · exact Or.inr ⟨j, value, hstays j value hagent, hemptied.later hmissing⟩
    · obtain ⟨next, hthread⟩ := h.inStep.calls_destroy hbefore
      refine Or.inr ⟨i, value, hafter, schedule, [], handle, next, rfl, hthread,
        h.inStep.slots_eq.symm.trans hslots, fun rest hrest => ?_⟩
      rwa [List.prefix_nil.mp hrest]

/-- Run: after any calls in any order there is a history. -/
theorem exists_history (hfree : hsm.FaultFree)
    (hround : ∀ record, ∃ bytes, toVec record = .ok bytes ∧ fromSlice bytes = .ok record)
    (accesses : ι → RecordAccess R) (m : Machine K) (schedule : List ι) :
    ∃ a, History hsm objectLabel accesses
      ⟨m, fun i => (accesses i).program objectLabel absent toVec fromSlice⟩ schedule absent toVec fromSlice a := by
  induction schedule using List.reverseRecOn with
  | nil =>
      have hnodup : (hsm.register objectLabel fromSlice m).slots.Nodup := by
        rw [slots_register, Machine.search_eq]
        exact m.matching_nodup _
      have hfresh (i : ι) : Register.Fresh ((accesses i).agent) := by cases accesses i <;> trivial
      have hnone (i : ι) (handle : ObjectHandle) : handle ∉ ((accesses i).agent).holds := by
        cases accesses i <;> simp [RecordAccess.agent, Register.Agent.holds]
      refine ⟨_, Register.reachable_start hnodup (slots_lt m) hfresh, inStep_start m,
        fun i handle hheld => absurd hheld (hnone i handle),
        fun i handle hheld => absurd hheld (hnone i handle), fun i hlost => ?_, fun hempty => Or.inl ?_⟩
      · dsimp only at hlost
        cases haccess : accesses i <;> simp [haccess, RecordAccess.agent, Register.Agent.Lost] at hlost
      · have hslots : (hsm.register objectLabel fromSlice m).slots = m.search (recordQuery objectLabel) :=
          slots_register m
        rw [← hslots, Register.Store.slots, hempty, List.map_nil]
  | append_singleton schedule i ih =>
      obtain ⟨a, h⟩ := ih
      obtain ⟨a', hstep, hin⟩ := h.inStep.step hfree hround (i := i)
      rw [← Race.run_append_singleton] at hin
      rcases hstep with rfl | hstep
      · exact ⟨_, h.idle hin⟩
      · exact ⟨_, h.step hround hstep hin⟩

end

/-! ### Policies -/

/-- What a signer's `policy` and `set_policy` do on the token, the loaded policy being kept. -/
def policyAccess (serde : Serde) (label : String) :
    RecordAccess MinimalHsmPolicy → TokenProgram K D Pkcs11Error (Option MinimalHsmPolicy)
  | .load => do
      let policy ← loadPolicy serde label
      pure (some policy)
  | .save policy => do
      let _ ← savePolicy serde label policy
      pure none

/-- Sessions that each read or replace the policy of one label, from a token in any state. -/
def policyRace (serde : Serde) (label : String) (accesses : ι → RecordAccess MinimalHsmPolicy) (m : Machine K) :
    Race (Session K D) (Stop Pkcs11Error) (Option MinimalHsmPolicy) (Machine K) ι :=
  ⟨m, fun i => policyAccess serde label (accesses i)⟩

section

variable [DecidableEq ι] (hsm : Hsm K D) (serde : Serde) (label : String)

theorem exists_history_policies (hfree : hsm.FaultFree) (hpolicies : serde.PolicyRoundTrip)
    (accesses : ι → RecordAccess MinimalHsmPolicy) (m : Machine K) (schedule : List ι) :
    ∃ a, History hsm (policyLabel label) accesses (policyRace serde label accesses m) schedule .permissive
      serde.policyToVec serde.policyFromSlice a := by
  have hprogram : (fun i => policyAccess serde label (accesses i) : ι → TokenProgram K D _ _) =
      fun i => (accesses i).program (policyLabel label) .permissive serde.policyToVec serde.policyFromSlice := by
    funext i
    cases accesses i <;> rfl
  rw [policyRace, hprogram]
  exact exists_history hfree hpolicies accesses m schedule

/-- However the calls of sessions that read and replace one policy at the same time are interleaved: when all
have ended and at least one was to replace it, one replacement has succeeded and is what a load then returns.
Every object then under the policy's label is that of a replacement that has succeeded. -/
theorem concurrent_saves_keep_one (hfree : hsm.FaultFree) (hpolicies : serde.PolicyRoundTrip)
    (accesses : ι → RecordAccess MinimalHsmPolicy) (m : Machine K) (schedule : List ι)
    (hended : ∀ i, (((policyRace serde label accesses m).run hsm.exec schedule).threads i).Ended)
    (hsaves : ∃ i policy, accesses i = .save policy) :
    let s := (policyRace serde label accesses m).run hsm.exec schedule
    (∃ i policy, accesses i = .save policy ∧ s.threads i = .done none ∧
      hsm.stored (policyLabel label) serde.policyFromSlice .permissive s.device = .ok policy) ∧
    ∀ record ∈ hsm.records (policyLabel label) serde.policyFromSlice s.device,
      ∃ i policy, accesses i = .save policy ∧ s.threads i = .done none ∧ record = .ok policy := by
  intro s
  obtain ⟨a, history⟩ := exists_history_policies hsm serde label hfree hpolicies accesses m schedule
  have hin := history.inStep
  obtain ⟨i, policy, hi⟩ := hsaves
  obtain ⟨value, phase, hagent⟩ := hin.exists_writer hi
  obtain ⟨hused, hlive⟩ := history.reachable.settled (slots_lt m) (fun j => (hin.ended (hended j)).1) hagent
  have hrecord : ∀ record ∈ hsm.records (policyLabel label) serde.policyFromSlice s.device,
      ∃ i policy, accesses i = .save policy ∧ s.threads i = .done none ∧ record = .ok policy := by
    intro record hrecord
    rw [records_eq, ← hin.store] at hrecord
    obtain ⟨entry, hentry, rfl⟩ := List.mem_map.mp hrecord
    obtain ⟨j, hj⟩ := hlive entry hentry
    obtain ⟨policy, haccess, hthread, hvalue⟩ := hin.stored hj
    exact ⟨j, policy, haccess, hthread, hvalue⟩
  refine ⟨?_, hrecord⟩
  cases hrecords : hsm.records (policyLabel label) serde.policyFromSlice s.device with
  | nil =>
      rw [records_eq, ← hin.store, List.map_eq_nil_iff] at hrecords
      exact absurd hrecords hused
  | cons record rest =>
      obtain ⟨j, policy, haccess, hthread, hvalue⟩ := hrecord record (hrecords ▸ List.mem_cons_self)
      refine ⟨j, policy, haccess, hthread, ?_⟩
      rw [Hsm.stored, hrecords, List.headD_cons, hvalue]

end

namespace IdealVendor

/-- The token with one policy stored on it. -/
def filed (policy : MinimalHsmPolicy) : Machine Key :=
  Machine.empty.create (recordObject (policyLabel "a") ((archive.policyToVec policy).toOption.getD []))

/-- Two sessions that replace the policy and one that reads it. -/
def racers : Fin 3 → RecordAccess MinimalHsmPolicy :=
  ![.save ⟨some 5, none, none⟩, .save ⟨none, some 2, none⟩, .load]

end IdealVendor

open IdealVendor in
/-- Two replacements find the same object. The one that destroys it gets through, the other gives up. -/
theorem one_replacement_gets_through :
    let s := (policyRace archive "a" racers (filed .permissive)).run token.exec [0, 1, 2, 0, 2, 1, 0]
    ∃ i policy, racers i = .save policy ∧ s.threads i = .done none ∧
      token.stored (policyLabel "a") archive.policyFromSlice .permissive s.device = .ok policy :=
  (concurrent_saves_keep_one token archive "a" (fun _ => rfl) archive_policyRoundTrip racers (filed .permissive)
    [0, 1, 2, 0, 2, 1, 0] (by decide +kernel) ⟨0, _, rfl⟩).1

section

variable [DecidableEq ι] (hsm : Hsm K D) (serde : Serde) (label : String)

/-- In every interleaving a load returns the permissive policy, a policy that was on the token at the start or
one that some session is storing, and never a mixture. An access that fails has found an object that the
replacement of another session has destroyed before the access came to it; a load can also fail on a record
from the start that cannot be read. -/
theorem concurrent_loads_untorn (hfree : hsm.FaultFree) (hpolicies : serde.PolicyRoundTrip)
    (accesses : ι → RecordAccess MinimalHsmPolicy) (m : Machine K) (schedule : List ι) :
    let s := (policyRace serde label accesses m).run hsm.exec schedule
    let initial := hsm.records (policyLabel label) serde.policyFromSlice m
    (∀ i policy, s.threads i = .done (some policy) → accesses i = .load ∧
      (policy = .permissive ∨ .ok policy ∈ initial ∨ ∃ j, accesses j = .save policy)) ∧
    (∀ i e, s.threads i = .stop e →
      (e = .err (.pkcs11 .objectHandleInvalid) ∧
        LostObject hsm (policyLabel label) accesses (policyRace serde label accesses m) schedule i) ∨
      (accesses i = .load ∧ .error e ∈ initial)) := by
  intro s initial
  obtain ⟨a, history⟩ := exists_history_policies hsm serde label hfree hpolicies accesses m schedule
  have hin := history.inStep
  have hread {i : ι} {value : Except (Stop Pkcs11Error) MinimalHsmPolicy}
      (hagent : a.agents i = .reader (.read (some value))) :
      value ∈ initial ∨ ∃ j policy, accesses j = .save policy ∧ value = .ok policy := by
    rcases history.reachable.sourced.read i value hagent with ⟨slot, hold⟩ | ⟨j, phase, hj⟩
    · refine Or.inl ?_
      rw [show initial = _ from records_eq m]
      exact List.mem_map_of_mem (f := Prod.snd) hold
    · exact Or.inr ⟨j, hin.writer hj⟩
  refine ⟨fun i policy hthread => ?_, fun i e hthread => ?_⟩
  · have hended : (s.threads i).Ended := by rw [hthread]; trivial
    rcases (hin.ended hended).2 with ⟨haccess, value, hagent, hend⟩ | ⟨hlost, hend⟩ | hend
    · refine ⟨haccess, ?_⟩
      rw [show Race.threads _ i = _ from hthread] at hend
      cases value with
      | none =>
          rw [readEnd, Program.done.injEq, Option.some.injEq] at hend
          exact Or.inl hend
      | some value =>
          cases value with
          | error e => cases hend
          | ok record =>
              rw [readEnd, Program.done.injEq, Option.some.injEq] at hend
              subst hend
              rcases hread hagent with hold | ⟨j, record, hj, hvalue⟩
              · exact Or.inr (Or.inl hold)
              · exact Or.inr (Or.inr ⟨j, Except.ok.inj hvalue ▸ hj⟩)
    · rw [show Race.threads _ i = _ from hthread] at hend
      cases hend
    · rw [show Race.threads _ i = _ from hthread] at hend
      cases hend
  · have hended : (s.threads i).Ended := by rw [hthread]; trivial
    rcases (hin.ended hended).2 with ⟨haccess, value, hagent, hend⟩ | ⟨hlost, hend⟩ | hend
    · rw [show Race.threads _ i = _ from hthread] at hend
      cases value with
      | none => cases hend
      | some value =>
          cases value with
          | ok record => cases hend
          | error reason =>
              rw [readEnd, Program.stop.injEq] at hend
              subst hend
              rcases hread hagent with hold | ⟨j, record, _, hvalue⟩
              · exact Or.inr ⟨haccess, hold⟩
              · cases hvalue
    · rw [show Race.threads _ i = _ from hthread] at hend
      rw [gone, Program.stop.injEq] at hend
      exact Or.inl ⟨hend, history.lost i hlost⟩
    · rw [show Race.threads _ i = _ from hthread] at hend
      cases hend

/-- Where there is a policy at the start, a load finds none only while the replacement that has destroyed the
last object under the label is about to create its own. -/
theorem policy_missing_only_in_replacement (hfree : hsm.FaultFree) (hpolicies : serde.PolicyRoundTrip)
    (accesses : ι → RecordAccess MinimalHsmPolicy) (m : Machine K) (schedule : List ι)
    (hstored : m.search (recordQuery (policyLabel label)) ≠ []) :
    let s := (policyRace serde label accesses m).run hsm.exec schedule
    s.device.search (recordQuery (policyLabel label)) = [] →
      ∃ i policy bytes next, accesses i = .save policy ∧ serde.policyFromSlice bytes = .ok policy ∧
        Emptied hsm (policyLabel label) (policyRace serde label accesses m) schedule i ∧
        s.threads i =
          .call (I := Session K D) (.createObject (recordTemplate (policyLabel label) bytes)) next := by
  intro s hmissing
  obtain ⟨a, history⟩ := exists_history_policies hsm serde label hfree hpolicies accesses m schedule
  have hempty : a.store.live = [] := by
    apply Register.Store.live_of_slots_nil
    rw [history.inStep.slots_eq, hmissing]
  rcases history.emptied hempty with hold | ⟨i, value, hagent, hemptied⟩
  · exact absurd hold hstored
  · obtain ⟨policy, bytes, next, haccess, hbytes, hthread⟩ := history.inStep.calls_create hagent
    exact ⟨i, policy, bytes, next, haccess, hbytes, hemptied, hthread⟩

end

open IdealVendor in
/-- A load that has made its search returns the policy it found, while two replacements are under way; and of
two replacements that have found the same object the second loses it to the first. -/
theorem load_before_replacement :
    ((⟨some 7, none, none⟩ : MinimalHsmPolicy) = .permissive ∨
      .ok ⟨some 7, none, none⟩ ∈ token.records (policyLabel "a") archive.policyFromSlice
        (filed ⟨some 7, none, none⟩) ∨ ∃ j, racers j = .save ⟨some 7, none, none⟩) ∧
    LostObject token (policyLabel "a") racers (policyRace archive "a" racers (filed .permissive)) [0, 1, 0, 1] 1 := by
  refine ⟨((concurrent_loads_untorn token archive "a" (fun _ => rfl) archive_policyRoundTrip racers
    (filed ⟨some 7, none, none⟩) [0, 1, 2, 2]).1 2 ⟨some 7, none, none⟩ rfl).2, ?_⟩
  have hfails := (concurrent_loads_untorn token archive "a" (fun _ => rfl) archive_policyRoundTrip racers
    (filed .permissive) [0, 1, 0, 1]).2 1 (.err (.pkcs11 .objectHandleInvalid)) rfl
  rcases hfails with ⟨_, hlost⟩ | ⟨hload, _⟩
  · exact hlost
  · cases hload

open IdealVendor in
/-- After one session has destroyed the object and before it creates its own, there is none. -/
theorem missing_before_creation :
    let s := (policyRace archive "a" racers (filed .permissive)).run token.exec [0, 0]
    ∃ i policy bytes next, racers i = .save policy ∧ archive.policyFromSlice bytes = .ok policy ∧
      Emptied token (policyLabel "a") (policyRace archive "a" racers (filed .permissive)) [0, 0] i ∧
      s.threads i =
        .call (I := Session Key Digest) (.createObject (recordTemplate (policyLabel "a") bytes)) next :=
  policy_missing_only_in_replacement token archive "a" (fun _ => rfl) archive_policyRoundTrip racers
    (filed .permissive) [0, 0] (by decide +kernel) (by decide +kernel)

end EmvaultPkcs11
