import EmvaultPkcs11.LibraryRace
import EmvaultPkcs11.LibraryRegister
import EmvaultPkcs11.RecordHistory

/-! Accesses to one record from several sessions at once. Loading makes up to two calls and replacing three or
more, and between any two of them another session may get its turn. The store of the record is a register whose
slots are the object handles, and each access is one of its agents. -/

open Effect Program

namespace EmvaultPkcs11

variable {K D R ι : Type}

/-- What a session does with a record. -/
inductive RecordAccess (R : Type) where
  | load
  | save (record : R)

section

variable (hsm : Hsm K D) (objectLabel : String) (absent : R) (toVec : R → Except String Bytes)
  (fromSlice : Bytes → Except String R)

/-- The program of an access. It returns the record if it loads it. -/
def RecordAccess.program : RecordAccess R → TokenProgram K D Pkcs11Error (Option R)
  | .load => do
      let record ← loadRecord objectLabel absent fromSlice
      pure (some record)
  | .save record => do
      let _ ← saveRecord objectLabel toVec record
      pure none

/-- The objects under the label as a register, each with what it is read as. -/
def Hsm.register (m : Machine K) : Register.Store (Except (Stop Pkcs11Error) R) where
  live := (m.matching (recordQuery objectLabel)).map fun entry =>
    (entry.1, hsm.recordOf objectLabel fromSlice entry)
  next := m.nextHandle

/-! ### Where an access is -/

/-- What is left of a replacement while `left` is still to be destroyed. -/
def clearRest (bytes : Bytes) (left : List ObjectHandle) : TokenProgram K D Pkcs11Error (Option R) := do
  destroyAll left
  let _ ← Session.createObject .pkcs11 (recordTemplate objectLabel bytes)
  pure none

/-- What is left of a load once it has found an object. -/
def readRest (handle : ObjectHandle) : TokenProgram K D Pkcs11Error (Option R) := do
  let attributes ← Session.getAttributes .pkcs11 handle [.value]
  let record ← Program.ofExcept (decodeRecord objectLabel fromSlice attributes)
  pure (some record)

/-- How a load ends that has read this. -/
def readEnd : Option (Except (Stop Pkcs11Error) R) → TokenProgram K D Pkcs11Error (Option R)
  | none => .done (some absent)
  | some (.ok record) => .done (some record)
  | some (.error e) => .stop e

/-- An object was gone when its turn came. -/
def gone : TokenProgram K D Pkcs11Error (Option R) := .stop (.err (.pkcs11 .objectHandleInvalid))

/-- A thread with this access has this left to do where the agent is. -/
inductive Stands : RecordAccess R → Register.Agent (Except (Stop Pkcs11Error) R) →
    TokenProgram K D Pkcs11Error (Option R) → Prop
  | loading : Stands .load (.reader .waiting) (RecordAccess.load.program objectLabel absent toVec fromSlice)
  | found (handle : ObjectHandle) :
      Stands .load (.reader (.found handle)) (readRest objectLabel fromSlice handle)
  | loaded (value : Option (Except (Stop Pkcs11Error) R)) :
      Stands .load (.reader (.read value)) (readEnd absent value)
  | loadLost : Stands .load (.reader .lost) gone
  | saving (record : R) : Stands (.save record) (.writer (.ok record) .waiting)
      ((RecordAccess.save record).program objectLabel absent toVec fromSlice)
  | clearing (record : R) (left : List ObjectHandle) (bytes : Bytes) (hbytes : fromSlice bytes = .ok record) :
      Stands (.save record) (.writer (.ok record) (.clearing left)) (clearRest objectLabel bytes left)
  | saved (record : R) : Stands (.save record) (.writer (.ok record) .stored) (.done none)
  | saveLost (record : R) : Stands (.save record) (.writer (.ok record) .lost) gone

/-- A handle is that of a record, or of no object any more. -/
def IsRecord (m : Machine K) (handle : ObjectHandle) : Prop :=
  ∀ object, m.object? handle = some object → object.matches (recordQuery objectLabel) = true

/-- The race and the register are in step: every thread stands where its agent is, and the handles an
agent is going to use are of records. -/
structure InStep (accesses : ι → RecordAccess R)
    (s : Race (Session K D) (Stop Pkcs11Error) (Option R) (Machine K) ι)
    (a : Register.State ι (Except (Stop Pkcs11Error) R)) : Prop where
  store : a.store = hsm.register objectLabel fromSlice s.device
  threads : ∀ i, Stands objectLabel absent toVec fromSlice (accesses i) (a.agents i) (s.threads i)
  held : ∀ i, ∀ handle ∈ (a.agents i).holds, IsRecord objectLabel s.device handle

variable {hsm objectLabel absent toVec fromSlice}

/-! ### The register under the calls of an access -/

theorem slots_register (m : Machine K) :
    (hsm.register objectLabel fromSlice m).slots = m.search (recordQuery objectLabel) := by
  rw [Register.Store.slots, Hsm.register, List.map_map, Machine.search_eq]
  rfl

theorem slots_lt (m : Machine K) :
    ∀ x ∈ (hsm.register objectLabel fromSlice m).slots, x < (hsm.register objectLabel fromSlice m).next := by
  intro x hx
  rw [slots_register, Machine.search_eq] at hx
  obtain ⟨entry, hentry, rfl⟩ := List.mem_map.mp hx
  exact m.handles_lt entry (List.mem_of_mem_filter hentry)

theorem register_destroy (m : Machine K) (handle : ObjectHandle) :
    hsm.register objectLabel fromSlice (m.destroy handle) =
      (hsm.register objectLabel fromSlice m).clear handle := by
  have hmatching : (m.destroy handle).matching (recordQuery objectLabel) =
      (m.matching (recordQuery objectLabel)).filter fun entry => entry.1 != handle := by
    rw [Machine.matching, Machine.objects_destroy, Machine.matching, List.filter_filter, List.filter_filter]
    exact List.filter_congr fun entry _ => Bool.and_comm _ _
  rw [Hsm.register, hmatching, Register.Store.clear, Hsm.register, List.filter_map]
  rfl

theorem register_create (m : Machine K) {bytes : Bytes} {record : R} (hbytes : fromSlice bytes = .ok record) :
    hsm.register objectLabel fromSlice (m.create (recordObject objectLabel bytes)) =
      (hsm.register objectLabel fromSlice m).take (.ok record) := by
  have hmatching : (m.create (recordObject objectLabel bytes)).matching (recordQuery objectLabel) =
      m.matching (recordQuery objectLabel) ++ [(m.nextHandle, recordObject objectLabel bytes)] := by
    have hmatches : (recordObject objectLabel bytes : Object K).matches (recordQuery objectLabel) = true := by
      rw [recordObject_matches]
    rw [Machine.matching, Machine.objects_create, List.filter_append, Machine.matching]
    simp [hmatches]
  rw [Hsm.register, hmatching, List.map_append, List.map_singleton, hsm.recordOf_recordObject objectLabel hbytes]
  rfl

theorem IsRecord.create {m : Machine K} {bytes : Bytes} {handle : ObjectHandle}
    (h : IsRecord objectLabel m handle) :
    IsRecord objectLabel (m.create (recordObject objectLabel bytes)) handle := by
  intro object hobject
  rw [Machine.object?_eq_some_iff, Machine.objects_create] at hobject
  rcases List.mem_append.mp hobject with hmem | hmem
  · exact h object ((m.object?_eq_some_iff handle object).mpr hmem)
  · rw [List.mem_singleton, Prod.mk.injEq] at hmem
    rw [hmem.2, recordObject_matches]

theorem IsRecord.destroy {m : Machine K} {handle other : ObjectHandle} (h : IsRecord objectLabel m handle) :
    IsRecord objectLabel (m.destroy other) handle :=
  fun object hobject => h object (m.object?_of_destroy hobject)

theorem isRecord_of_mem_search {m : Machine K} {handle : ObjectHandle}
    (h : handle ∈ m.search (recordQuery objectLabel)) : IsRecord objectLabel m handle := by
  rw [Machine.search_eq] at h
  obtain ⟨entry, hentry, rfl⟩ := List.mem_map.mp h
  intro object hobject
  rw [m.object?_of_mem_matching hentry, Option.some.injEq] at hobject
  exact hobject ▸ (List.mem_filter.mp hentry).2

/-- A handle of a record is one of the slots. -/
theorem mem_register {m : Machine K} {handle : ObjectHandle} {object : Object K}
    (hobject : m.object? handle = some object) (hmatches : object.matches (recordQuery objectLabel) = true) :
    (handle, hsm.recordOf objectLabel fromSlice (handle, object)) ∈
      (hsm.register objectLabel fromSlice m).live :=
  List.mem_map.mpr ⟨(handle, object),
    List.mem_filter.mpr ⟨(m.object?_eq_some_iff handle object).mp hobject, hmatches⟩, rfl⟩

/-- A handle that is no object's is none of them. -/
theorem not_mem_slots {m : Machine K} {handle : ObjectHandle} (hobject : m.object? handle = none) :
    handle ∉ (hsm.register objectLabel fromSlice m).slots := by
  rw [slots_register, Machine.search_eq]
  intro hmem
  obtain ⟨entry, hentry, rfl⟩ := List.mem_map.mp hmem
  rw [m.object?_of_mem_matching hentry] at hobject
  cases hobject

section

variable (hfree : hsm.FaultFree) (m : Machine K)
include hfree

theorem exec_of_faultFree (call : Call D) :
    hsm.exec call m = ((hsm.serve m call).1, (hsm.serve m call).2.tick) := by
  rw [Hsm.exec, hfree m.calls]

theorem exec_getAttributes_none {handle : ObjectHandle} (hobject : m.object? handle = none)
    (types : List AttributeType) :
    hsm.exec (.getAttributes handle types) m = (.error .objectHandleInvalid, m.tick) := by
  rw [exec_of_faultFree hfree, Hsm.serve, hobject]

theorem exec_getAttributes_some {handle : ObjectHandle} {object : Object K}
    (hobject : m.object? handle = some object) (types : List AttributeType) :
    hsm.exec (.getAttributes handle types) m =
      (.ok ((hsm.attributesOf object).filter fun a => a.type ∈ types), m.tick) := by
  rw [exec_of_faultFree hfree, Hsm.serve, hobject]

theorem exec_destroyObject_none {handle : ObjectHandle} (hobject : m.object? handle = none) :
    hsm.exec (.destroyObject handle) m = (.error .objectHandleInvalid, m.tick) := by
  rw [exec_of_faultFree hfree, Hsm.serve, hobject]

theorem exec_destroyObject_some {handle : ObjectHandle} {object : Object K}
    (hobject : m.object? handle = some object) :
    hsm.exec (.destroyObject handle) m = (.ok (), (m.destroy handle).tick) := by
  rw [exec_of_faultFree hfree, Hsm.serve, hobject]

end

/-! ### The calls an access makes -/

/-- How a load goes on after its search. -/
def afterSearch (objectLabel : String) (absent : R) (fromSlice : Bytes → Except String R) :
    Except CryptokiError (List ObjectHandle) → TokenProgram K D Pkcs11Error (Option R)
  | .error e => .stop (.err (.pkcs11 e))
  | .ok [] => .done (some absent)
  | .ok (handle :: _) => readRest objectLabel fromSlice handle

/-- How a program goes on after a call that may fail. -/
def afterCall {α β : Type} (next : α → TokenProgram K D Pkcs11Error β) :
    Except CryptokiError α → TokenProgram K D Pkcs11Error β
  | .error e => .stop (.err (.pkcs11 e))
  | .ok a => next a

theorem load_program : (RecordAccess.load.program objectLabel absent toVec fromSlice :
    TokenProgram K D Pkcs11Error (Option R)) =
      .call (I := Session K D) (.findObjects (recordQuery objectLabel))
        (afterSearch objectLabel absent fromSlice) := by
  show Program.call _ _ = _
  congr 1
  funext reply
  cases reply with
  | error e => rfl
  | ok handles =>
      cases handles with
      | nil => rfl
      | cons handle rest =>
          exact bind_assoc' (Session.getAttributes .pkcs11 handle [.value])
            (fun attributes => Program.ofExcept (decodeRecord objectLabel fromSlice attributes))
            (fun record => pure (some record))

theorem save_program {record : R} {bytes : Bytes} (htoVec : toVec record = .ok bytes) :
    ((RecordAccess.save record).program objectLabel absent toVec fromSlice :
      TokenProgram K D Pkcs11Error (Option R)) =
        .call (I := Session K D) (.findObjects (recordQuery objectLabel))
          (afterCall (clearRest objectLabel bytes)) := by
  simp only [RecordAccess.program, saveRecord, htoVec, bind_assoc']
  show Program.call _ _ = _
  congr 1
  funext reply
  cases reply <;> rfl

theorem readRest_eq (absent : R) (handle : ObjectHandle) :
    (readRest objectLabel fromSlice handle : TokenProgram K D Pkcs11Error (Option R)) =
      .call (I := Session K D) (.getAttributes handle [.value]) (afterCall fun attributes =>
        readEnd absent (some (decodeRecord objectLabel fromSlice attributes))) := by
  show Program.call _ _ = _
  congr 1
  funext reply
  cases reply with
  | error e => rfl
  | ok attributes =>
      show (Program.ofExcept (decodeRecord objectLabel fromSlice attributes) >>= fun record =>
        pure (some record)) = readEnd absent (some (decodeRecord objectLabel fromSlice attributes))
      cases decodeRecord objectLabel fromSlice attributes <;> rfl

theorem clearRest_cons (bytes : Bytes) (handle : ObjectHandle) (left : List ObjectHandle) :
    (clearRest objectLabel bytes (handle :: left) : TokenProgram K D Pkcs11Error (Option R)) =
      .call (I := Session K D) (.destroyObject handle) (afterCall fun _ => clearRest objectLabel bytes left) := by
  rw [clearRest, destroyAll, bind_assoc']
  show Program.call _ _ = _
  congr 1
  funext reply
  cases reply <;> rfl

theorem clearRest_nil (bytes : Bytes) :
    (clearRest objectLabel bytes [] : TokenProgram K D Pkcs11Error (Option R)) =
      .call (I := Session K D) (.createObject (recordTemplate objectLabel bytes))
        (afterCall fun _ => .done none) := by
  show Program.call _ _ = _
  congr 1
  funext reply
  cases reply <;> rfl

/-! ### Step by step -/

variable [DecidableEq ι] {accesses : ι → RecordAccess R}
  {s : Race (Session K D) (Stop Pkcs11Error) (Option R) (Machine K) ι}
  {a : Register.State ι (Except (Stop Pkcs11Error) R)}

/-- A call that moves a thread's agent. -/
theorem InStep.advance (h : InStep hsm objectLabel absent toVec fromSlice accesses s a) {i : ι} {call : Call D}
    {next : Reply K call → TokenProgram K D Pkcs11Error (Option R)} (hthread : s.threads i = .call call next)
    {reply : Reply K call} {m : Machine K} (hexec : hsm.exec call s.device = (reply, m))
    (agent : Register.Agent (Except (Stop Pkcs11Error) R))
    (hmove : Register.Move a.store (a.agents i) agent (hsm.register objectLabel fromSlice m))
    (hstands : Stands objectLabel absent toVec fromSlice (accesses i) agent (next reply))
    (hnew : ∀ handle ∈ agent.holds, IsRecord objectLabel s.device handle)
    (hstable : ∀ handle, IsRecord objectLabel s.device handle → IsRecord objectLabel m handle) :
    ∃ a', (a' = a ∨ Register.Step i a a') ∧
      InStep hsm objectLabel absent toVec fromSlice accesses (s.step hsm.exec i) a' := by
  refine ⟨⟨hsm.register objectLabel fromSlice m, Function.update a.agents i agent⟩,
    Or.inr ⟨agent, hmove, rfl⟩, ?_⟩
  rw [Race.step_call hthread, hexec]
  refine ⟨rfl, fun j => ?_, fun j handle hhandle => hstable handle ?_⟩
  · dsimp only
    by_cases heq : j = i
    · subst heq
      rw [Function.update_self, Function.update_self]
      exact hstands
    · rw [Function.update_of_ne heq, Function.update_of_ne heq]
      exact h.threads j
  · dsimp only at hhandle
    by_cases heq : j = i
    · subst heq
      rw [Function.update_self] at hhandle
      exact hnew handle hhandle
    · rw [Function.update_of_ne heq] at hhandle
      exact h.held j handle hhandle

section

variable (hfree : hsm.FaultFree) (h : InStep hsm objectLabel absent toVec fromSlice accesses s a) {i : ι}
include hfree h

/-- A load's search finds the first object there is. -/
theorem InStep.loading (haccess : accesses i = .load) (hagent : a.agents i = .reader .waiting)
    (hthread : s.threads i = RecordAccess.load.program objectLabel absent toVec fromSlice) :
    ∃ a', (a' = a ∨ Register.Step i a a') ∧
      InStep hsm objectLabel absent toVec fromSlice accesses (s.step hsm.exec i) a' := by
  have hsame : hsm.register objectLabel fromSlice s.device.tick = a.store := h.store.symm
  have hlive := congrArg Register.Store.live h.store
  have hsearch : hsm.exec (.findObjects (recordQuery objectLabel)) s.device =
      (.ok (s.device.search (recordQuery objectLabel)), s.device.tick) := exec_of_faultFree hfree _ _
  have hrecords : ∀ handle ∈ s.device.search (recordQuery objectLabel), IsRecord objectLabel s.device handle :=
    fun _ => isRecord_of_mem_search
  rw [Machine.search_eq] at hsearch hrecords
  rw [Hsm.register] at hlive
  cases hfound : s.device.matching (recordQuery objectLabel) with
  | nil =>
      rw [hfound, List.map_nil] at hlive hsearch
      refine h.advance (hthread.trans load_program) hsearch (.reader (.read none)) ?_ ?_
        (by simp [Register.Agent.holds]) fun _ h' => h'
      · rw [hagent, hsame]
        exact .miss hlive
      · rw [haccess]
        exact .loaded none
  | cons entry rest =>
      rw [hfound, List.map_cons] at hsearch hrecords
      refine h.advance (hthread.trans load_program) hsearch (.reader (.found entry.1)) ?_ ?_ ?_ fun _ h' => h'
      · rw [hagent, hsame]
        refine .find entry.1 ?_
        rw [h.store, slots_register, Machine.search_eq, hfound]
        exact List.mem_cons_self
      · rw [haccess]
        exact .found entry.1
      · intro handle hhandle
        rw [Register.Agent.holds, List.mem_singleton] at hhandle
        exact hrecords handle (hhandle ▸ List.mem_cons_self)

/-- Reading the object that was found gives what it is read as, if it is still there. -/
theorem InStep.reading (haccess : accesses i = .load) {handle : ObjectHandle}
    (hagent : a.agents i = .reader (.found handle))
    (hthread : s.threads i = readRest objectLabel fromSlice handle) :
    ∃ a', (a' = a ∨ Register.Step i a a') ∧
      InStep hsm objectLabel absent toVec fromSlice accesses (s.step hsm.exec i) a' := by
  have hsame : hsm.register objectLabel fromSlice s.device.tick = a.store := h.store.symm
  have hrecord := h.held i
  rw [hagent, Register.Agent.holds] at hrecord
  cases hobject : s.device.object? handle with
  | none =>
      refine h.advance (hthread.trans (readRest_eq absent handle))
        (exec_getAttributes_none hfree _ hobject _) (.reader .lost) ?_ ?_ (by simp [Register.Agent.holds])
        fun _ h' => h'
      · rw [hagent, hsame]
        refine .fail handle ?_
        rw [h.store]
        exact not_mem_slots hobject
      · rw [haccess]
        exact .loadLost
  | some object =>
      refine h.advance (hthread.trans (readRest_eq absent handle))
        (exec_getAttributes_some hfree _ hobject _)
        (.reader (.read (some (hsm.recordOf objectLabel fromSlice (handle, object))))) ?_ ?_
        (by simp [Register.Agent.holds]) fun _ h' => h'
      · rw [hagent, hsame]
        apply Register.Move.read
        rw [h.store]
        exact mem_register hobject (hrecord handle List.mem_cons_self object hobject)
      · rw [haccess]
        exact .loaded _

/-- A replacement's search finds all objects there are. -/
theorem InStep.saving {record : R} {bytes : Bytes} (htoVec : toVec record = .ok bytes)
    (hfromSlice : fromSlice bytes = .ok record) (haccess : accesses i = .save record)
    (hagent : a.agents i = .writer (.ok record) .waiting)
    (hthread : s.threads i = (RecordAccess.save record).program objectLabel absent toVec fromSlice) :
    ∃ a', (a' = a ∨ Register.Step i a a') ∧
      InStep hsm objectLabel absent toVec fromSlice accesses (s.step hsm.exec i) a' := by
  have hsame : hsm.register objectLabel fromSlice s.device.tick = a.store := h.store.symm
  have hsearch : hsm.exec (.findObjects (recordQuery objectLabel)) s.device =
      (.ok (s.device.search (recordQuery objectLabel)), s.device.tick) := exec_of_faultFree hfree _ _
  have hslots : a.store.slots = s.device.search (recordQuery objectLabel) := by rw [h.store, slots_register]
  refine h.advance (hthread.trans (save_program htoVec)) hsearch
    (.writer (.ok record) (.clearing a.store.slots)) ?_ ?_ ?_ fun _ h' => h'
  · rw [hagent, hsame]
    exact .look _
  · rw [haccess, hslots]
    exact .clearing record _ bytes hfromSlice
  · rw [hslots]
    exact fun handle hhandle => isRecord_of_mem_search hhandle

/-- After its search a replacement destroys what it has found, or finds it gone, and then creates its object. -/
theorem InStep.clearing {record : R} {left : List ObjectHandle} {bytes : Bytes}
    (hbytes : fromSlice bytes = .ok record) (haccess : accesses i = .save record)
    (hagent : a.agents i = .writer (.ok record) (.clearing left))
    (hthread : s.threads i = clearRest objectLabel bytes left) :
    ∃ a', (a' = a ∨ Register.Step i a a') ∧
      InStep hsm objectLabel absent toVec fromSlice accesses (s.step hsm.exec i) a' := by
  have hrecord := h.held i
  rw [hagent, Register.Agent.holds] at hrecord
  cases left with
  | nil =>
      have hcreate : hsm.exec (.createObject (recordTemplate objectLabel bytes)) s.device =
          (.ok s.device.nextHandle, (s.device.create (recordObject objectLabel bytes)).tick) :=
        exec_of_faultFree hfree _ _
      have hstore : hsm.register objectLabel fromSlice (s.device.create (recordObject objectLabel bytes)).tick =
          a.store.take (.ok record) := by
        rw [h.store, ← register_create s.device hbytes]
        rfl
      refine h.advance (hthread.trans (clearRest_nil bytes)) hcreate (.writer (.ok record) .stored) ?_ ?_
        (by simp [Register.Agent.holds]) fun _ h' => h'.create
      · rw [hagent, hstore]
        exact .take _
      · rw [haccess]
        exact .saved record
  | cons handle left =>
      cases hobject : s.device.object? handle with
      | none =>
          refine h.advance (hthread.trans (clearRest_cons bytes handle left))
            (exec_destroyObject_none hfree _ hobject) (.writer (.ok record) .lost) ?_ ?_
            (by simp [Register.Agent.holds]) fun _ h' => h'
          · rw [hagent, show hsm.register objectLabel fromSlice s.device.tick = a.store from h.store.symm]
            apply Register.Move.lose
            rw [h.store]
            exact not_mem_slots hobject
          · rw [haccess]
            exact .saveLost record
      | some object =>
          have hstore : hsm.register objectLabel fromSlice (s.device.destroy handle).tick =
              a.store.clear handle := by
            rw [h.store, ← register_destroy]
            rfl
          refine h.advance (hthread.trans (clearRest_cons bytes handle left))
            (exec_destroyObject_some hfree _ hobject) (.writer (.ok record) (.clearing left)) ?_ ?_
            (fun other hother => hrecord other (List.mem_cons_of_mem _ hother)) fun _ h' => h'.destroy
          · rw [hagent, hstore]
            apply Register.Move.clear
            rw [h.store]
            exact List.mem_map_of_mem (mem_register hobject (hrecord handle List.mem_cons_self object hobject))
          · rw [haccess]
            exact .clearing record left bytes hbytes

/-- Step: each call of a thread is a step of its agent. -/
theorem InStep.step (hround : ∀ record, ∃ bytes, toVec record = .ok bytes ∧ fromSlice bytes = .ok record) :
    ∃ a', (a' = a ∨ Register.Step i a a') ∧
      InStep hsm objectLabel absent toVec fromSlice accesses (s.step hsm.exec i) a' := by
  have hi := h.threads i
  generalize haccess : accesses i = access at hi
  generalize hagent : a.agents i = agent at hi
  generalize hthread : s.threads i = thread at hi
  have hended (h' : thread.Ended) : ∃ a', (a' = a ∨ Register.Step i a a') ∧
      InStep hsm objectLabel absent toVec fromSlice accesses (s.step hsm.exec i) a' :=
    ⟨a, Or.inl rfl, by rwa [Race.step_of_ended (hthread ▸ h')]⟩
  cases hi with
  | loading => exact h.loading hfree haccess hagent hthread
  | found handle => exact h.reading hfree haccess hagent hthread
  | saving record =>
      obtain ⟨bytes, htoVec, hfromSlice⟩ := hround record
      exact h.saving hfree htoVec hfromSlice haccess hagent hthread
  | clearing record left bytes hbytes => exact h.clearing hfree hbytes haccess hagent hthread
  | saved record => exact hended trivial
  | saveLost record => exact hended trivial
  | loadLost => exact hended trivial
  | loaded value =>
      apply hended
      cases value with
      | none => trivial
      | some value => cases value <;> trivial

end

/-! ### At the start -/

/-- The agent of an access. -/
def RecordAccess.agent : RecordAccess R → Register.Agent (Except (Stop Pkcs11Error) R)
  | .load => .reader .waiting
  | .save record => .writer (.ok record) .waiting

omit [DecidableEq ι] in
theorem inStep_start (m : Machine K) : InStep hsm objectLabel absent toVec fromSlice accesses
    ⟨m, fun i => (accesses i).program objectLabel absent toVec fromSlice⟩
    ⟨hsm.register objectLabel fromSlice m, fun i => (accesses i).agent⟩ where
  store := rfl
  threads i := by
    dsimp only
    cases accesses i with
    | load => exact .loading
    | save record => exact .saving record
  held i := by
    dsimp only
    cases accesses i <;> simp [RecordAccess.agent, Register.Agent.holds]

end

end EmvaultPkcs11
