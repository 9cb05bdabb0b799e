import EmvaultPkcs11.LibraryPool
import EmvaultPkcs11.PolicyStore

/-! The session's calls, and loading and replacing a record, while other sessions read the same token: a
reading changes nothing but the number of calls, so each call answers what it would have answered at the
start. The token is one on which no call fails. -/

open Effect Program

namespace EmvaultPkcs11

variable {K D R : Type}

/-- The calls that change the objects of a token. -/
def Call.writes : Call D → Bool
  | .destroyObject _ => true
  | .createObject _ => true
  | .deriveKey _ _ _ => true
  | _ => false

/-! ### The session's calls amid the readings of others -/

namespace Machine.Ticked

/-- A call that writes nothing. -/
theorem of_reading (hsm : Hsm K D) {call : Call D} (hreads : call.writes = false) (m : Machine K) :
    m.Ticked (hsm.exec call m).2 := by
  unfold Hsm.exec
  split
  · exact .tick m
  · cases call with
    | findObjects template => exact .tick m
    | getAttributes handle types =>
        simp only [Hsm.serve]
        split <;> exact .tick m
    | sign handle digest =>
        simp only [Hsm.serve]
        repeat' split
        all_goals exact .tick m
    | now => exact .tick m
    | destroyObject handle => cases hreads
    | createObject template => cases hreads
    | deriveKey mechanism base template => cases hreads

end Machine.Ticked

/-- A program amid sessions that only read. -/
abbrev wpBesideReaders {ε α : Type} (hsm : Hsm K D) (Q : α → Machine K → Prop)
    (E : Stop ε → Machine K → Prop) (p : TokenProgram K D ε α) (m : Machine K) : Prop :=
  wpAmid hsm.exec Machine.Ticked Q E p m

section Calls

variable {ε : Type} {hsm : Hsm K D} (hfree : hsm.FaultFree) (wrap : CryptokiError → ε)
  {E : Stop ε → Machine K → Prop} {m : Machine K}
include hfree

theorem amid_findObjects (template : List Attribute) (Q : List ObjectHandle → Machine K → Prop) :
    wpBesideReaders hsm Q E (Session.findObjects wrap template) m ↔
      ∀ m', m.Ticked m' → Q (m.search template) m'.tick := by
  refine forall₂_congr fun m' hm' => ?_
  have hsearch : m'.search template = m.search template := by
    rw [Machine.search, Machine.search, hm'.objects]
  rw [← hsearch]
  simp [Hsm.exec, hfree m'.calls, Hsm.serve, orStop]

theorem amid_getAttributes (handle : ObjectHandle) (types : List AttributeType) {object : Object K}
    (hobject : m.object? handle = some object) (Q : List Attribute → Machine K → Prop) :
    wpBesideReaders hsm Q E (Session.getAttributes wrap handle types) m ↔
      ∀ m', m.Ticked m' → Q ((hsm.attributesOf object).filter fun a => a.type ∈ types) m'.tick := by
  refine forall₂_congr fun m' hm' => ?_
  have hobject' : m'.object? handle = some object := by
    rwa [Machine.object?_eq_of_objects hm'.objects]
  simp [Hsm.exec, hfree m'.calls, Hsm.serve, hobject', orStop]

theorem amid_destroyObject (handle : ObjectHandle) {object : Object K}
    (hobject : m.object? handle = some object) (Q : Unit → Machine K → Prop) :
    wpBesideReaders hsm Q E (Session.destroyObject wrap handle) m ↔
      ∀ m', m.Ticked m' → Q () (m'.destroy handle).tick := by
  refine forall₂_congr fun m' hm' => ?_
  have hobject' : m'.object? handle = some object := by
    rwa [Machine.object?_eq_of_objects hm'.objects]
  simp [Hsm.exec, hfree m'.calls, Hsm.serve, hobject', orStop]

theorem amid_createObject (template : List Attribute) (Q : ObjectHandle → Machine K → Prop) :
    wpBesideReaders hsm Q E (Session.createObject wrap template) m ↔
      ∀ m', m.Ticked m' → Q m'.nextHandle (m'.create ⟨template, none⟩).tick := by
  refine forall₂_congr fun m' _ => ?_
  simp [Hsm.exec, hfree m'.calls, Hsm.serve, orStop]

theorem amid_now (Q : Nat → Machine K → Prop) :
    wpBesideReaders hsm Q E Session.now m ↔ ∀ m', m.Ticked m' → Q (hsm.clock m'.calls) m'.tick := by
  refine forall₂_congr fun m' _ => ?_
  simp [Hsm.exec, hfree m'.calls, Hsm.serve]

end Calls

/-! ### Reading and replacing a record amid the readings of others -/

section Records

variable {hsm : Hsm K D} (hfree : hsm.FaultFree) (objectLabel : String)
include hfree

theorem amid_loadRecord (absent : R) (fromSlice : Bytes → Except String R) (m : Machine K) :
    wpBesideReaders hsm
      (fun record m' => hsm.stored objectLabel fromSlice absent m = .ok record ∧ m.Ticked m')
      (fun e m' => m.Ticked m' ∧ hsm.stored objectLabel fromSlice absent m = .error e)
      (loadRecord objectLabel absent fromSlice) m := by
  rw [wpBesideReaders, loadRecord, wpAmid_bind]
  refine (amid_findObjects hfree Pkcs11Error.pkcs11 _ _).mpr fun m₁ h₁ => ?_
  rw [Machine.search_eq]
  cases hmatching : m.matching (recordQuery objectLabel) with
  | nil => exact ⟨by simp [Hsm.stored, Hsm.records, hmatching], h₁.trans (.tick m₁)⟩
  | cons entry rest =>
      have hticked := h₁.trans (.tick m₁)
      have hobject : m₁.tick.object? entry.1 = some entry.2 := by
        rw [Machine.object?_eq_of_objects hticked.objects]
        have hmem : entry ∈ m.matching (recordQuery objectLabel) := by simp [hmatching]
        exact m.object?_of_mem_matching hmem
      have hstored : hsm.stored objectLabel fromSlice absent m =
          hsm.recordOf objectLabel fromSlice entry := by
        simp [Hsm.stored, Hsm.records, hmatching]
      simp only [List.map_cons, wpAmid_bind]
      refine (amid_getAttributes hfree Pkcs11Error.pkcs11 entry.1 [.value] hobject _).mpr fun m₂ h₂ => ?_
      rw [wpAmid_ofExcept]
      have hread := (hticked.trans h₂).trans (.tick m₂)
      exact ⟨fun record hrecord => ⟨hstored.trans hrecord, hread⟩, fun e he => ⟨hread, hstored.trans he⟩⟩

theorem amid_destroyAll (entries : List (ObjectHandle × Object K)) :
    ∀ m : Machine K, m.matching (recordQuery objectLabel) = entries →
      wpBesideReaders hsm
        (fun _ m' => m'.objects =
            m.objects.filter (fun entry => !entry.2.matches (recordQuery objectLabel)) ∧
          m'.nextHandle = m.nextHandle ∧ m.calls ≤ m'.calls)
        (fun _ _ => False) (destroyAll (entries.map Prod.fst)) m := by
  induction entries with
  | nil =>
      intro m hmatching
      exact ⟨(m.filter_of_matching_nil hmatching).symm, rfl, Nat.le_refl _⟩
  | cons entry rest ih =>
      intro m hmatching
      have hmem : entry ∈ m.matching (recordQuery objectLabel) := by simp [hmatching]
      rw [wpBesideReaders, List.map_cons, destroyAll, wpAmid_bind]
      refine (amid_destroyObject hfree Pkcs11Error.pkcs11 entry.1 (m.object?_of_mem_matching hmem) _).mpr
        fun m₁ h₁ => ?_
      have hmatching₁ : m₁.matching (recordQuery objectLabel) = entry :: rest := by
        rw [Machine.matching, h₁.objects, ← Machine.matching, hmatching]
      refine wpAmid_mono (ih (m₁.destroy entry.1).tick (m₁.matching_destroy_head hmatching₁))
        (fun _ m' h => ?_) (fun _ _ h => h)
      obtain ⟨hobjects, hnext, hcalls⟩ := h
      refine ⟨?_, hnext.trans h₁.nextHandle, h₁.calls.trans ((Nat.le_succ _).trans hcalls)⟩
      rw [hobjects, ← h₁.objects]
      exact m₁.filter_destroy_of_mem_matching (hmatching₁ ▸ List.mem_cons_self)

theorem amid_saveRecord (toVec : R → Except String Bytes) (record : R) (m : Machine K) :
    wpBesideReaders hsm
      (fun _ m' => ∃ bytes, toVec record = .ok bytes ∧ Machine.Replaces objectLabel bytes m m')
      (fun _ _ => ∃ reason, toVec record = .error reason) (saveRecord objectLabel toVec record) m := by
  rw [wpBesideReaders, saveRecord, wpAmid_bind]
  refine (amid_findObjects hfree Pkcs11Error.pkcs11 _ _).mpr fun m₁ h₁ => ?_
  have hmatching : m₁.tick.matching (recordQuery objectLabel) = m.matching (recordQuery objectLabel) := by
    rw [Machine.matching, Machine.objects_tick, h₁.objects, ← Machine.matching]
  rw [Machine.search_eq, wpAmid_bind]
  refine wpAmid_mono (amid_destroyAll hfree objectLabel _ m₁.tick hmatching) (fun _ m₂ h₂ => ?_)
    (fun _ _ h => h.elim)
  obtain ⟨hobjects, hnext, hcalls⟩ := h₂
  cases htoVec : toVec record with
  | error reason => exact ⟨reason, rfl⟩
  | ok bytes =>
      refine (amid_createObject hfree Pkcs11Error.pkcs11 _ _).mpr fun m₃ h₃ => ⟨bytes, rfl, ?_, ?_, ?_⟩
      · simp only [Machine.objects_tick, Machine.objects_create, h₃.objects, hobjects, h₁.objects,
          h₃.nextHandle, hnext, Machine.nextHandle_tick, h₁.nextHandle, recordObject]
      · simp only [Machine.nextHandle_tick, Machine.nextHandle_create, h₃.nextHandle, hnext,
          h₁.nextHandle]
      · have hcalls₁ := h₁.calls
        have hcalls₃ := h₃.calls
        simp only [Machine.calls_tick, Machine.calls_create] at hcalls ⊢
        omega

end Records

end EmvaultPkcs11
