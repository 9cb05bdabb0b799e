import EmvaultPkcs11.Policy
import EmvaultPkcs11.TokenFrame

/-! Loading and replacing a stored record. A token may hold any number of objects under the label of
a record; loading reads the first, replacing destroys them all and creates a new one. `records` is
the list of what those objects decode to, and the specifications below say what a load, a removal and
a replacement do to it, for every schedule of failing calls. -/

open Effect

namespace EmvaultPkcs11

variable {K D R : Type}

/-! ### Labels -/

theorem policyLabel_injective : Function.Injective policyLabel := by
  intro label label' h
  have hchars := congrArg String.toList h
  apply String.toList_inj.mp
  simpa [policyLabel, toString] using hchars

theorem sigrateLabel_injective : Function.Injective sigrateLabel := by
  intro label label' h
  have hchars := congrArg String.toList h
  apply String.toList_inj.mp
  simpa [sigrateLabel, toString] using hchars

/-- The two kinds of labels end in different letters. -/
theorem policyLabel_ne_sigrateLabel (label label' : String) : policyLabel label ≠ sigrateLabel label' := by
  intro h
  have hlast := congrArg (fun text => text.toList.reverse.head?) h
  simp [policyLabel, sigrateLabel, toString] at hlast

/-! ### Stored records -/

namespace Hsm

variable (hsm : Hsm K D) (objectLabel : String) (fromSlice : Bytes → Except String R)

/-- The record an object is read as. -/
def recordOf (entry : ObjectHandle × Object K) : Except (Stop Pkcs11Error) R :=
  decodeRecord objectLabel fromSlice
    ((hsm.attributesOf entry.2).filter fun a => a.type ∈ [AttributeType.value])

/-- What the objects under the label of a record are read as, in the order a search finds them. -/
def records (m : Machine K) : List (Except (Stop Pkcs11Error) R) :=
  (m.matching (recordQuery objectLabel)).map (hsm.recordOf objectLabel fromSlice)

/-- What loading a record gives when no call fails. -/
def stored (absent : R) (m : Machine K) : Except (Stop Pkcs11Error) R :=
  (hsm.records objectLabel fromSlice m).headD (.ok absent)

theorem records_eq_of_dataObjects {m m' : Machine K} (h : m'.dataObjects = m.dataObjects) :
    hsm.records objectLabel fromSlice m' = hsm.records objectLabel fromSlice m := by
  rw [records, Machine.matching_eq_of_dataObjects h (by simp [recordQuery]), records]

theorem stored_eq_of_dataObjects {m m' : Machine K} (h : m'.dataObjects = m.dataObjects)
    (absent : R) :
    hsm.stored objectLabel fromSlice absent m' = hsm.stored objectLabel fromSlice absent m := by
  rw [stored, hsm.records_eq_of_dataObjects objectLabel fromSlice h, stored]

/-- The number of calls, of at most `n` from call number `c` on, that are served before one fails. -/
def servedFrom (c : Nat) : Nat → Nat
  | 0 => 0
  | n + 1 =>
      match hsm.fault c with
      | some _ => 0
      | none => servedFrom (c + 1) n + 1

theorem servedFrom_le (n : Nat) : ∀ c, hsm.servedFrom c n ≤ n := by
  induction n with
  | zero => exact fun c => Nat.le_refl _
  | succ n ih =>
      intro c
      unfold servedFrom
      split
      · exact Nat.zero_le _
      · exact Nat.succ_le_succ (ih (c + 1))

theorem servedFrom_of_faultFree (hfree : hsm.FaultFree) (n : Nat) : ∀ c, hsm.servedFrom c n = n := by
  induction n with
  | zero => exact fun c => rfl
  | succ n ih => exact fun c => by simp only [servedFrom, hfree c, ih (c + 1)]

end Hsm

/-- Only the number of calls has changed. -/
structure Machine.Ticked (m m' : Machine K) : Prop where
  objects : m'.objects = m.objects
  nextHandle : m'.nextHandle = m.nextHandle
  calls : m.calls ≤ m'.calls

namespace Machine.Ticked

theorem refl (m : Machine K) : m.Ticked m := ⟨rfl, rfl, Nat.le_refl _⟩

theorem trans {m m' m'' : Machine K} (h : m.Ticked m') (h' : m'.Ticked m'') : m.Ticked m'' :=
  ⟨h'.objects.trans h.objects, h'.nextHandle.trans h.nextHandle, h.calls.trans h'.calls⟩

theorem tick (m : Machine K) : m.Ticked m.tick := ⟨rfl, rfl, Nat.le_succ _⟩

theorem tick_tick (m : Machine K) : m.Ticked m.tick.tick := ⟨rfl, rfl, by simp; omega⟩

theorem dataObjects {m m' : Machine K} (h : m.Ticked m') : m'.dataObjects = m.dataObjects := by
  rw [Machine.dataObjects, h.objects, Machine.dataObjects]

theorem keeps {m m' : Machine K} (h : m.Ticked m') : m.Keeps m' where
  objects := fun handle object hobject => by rwa [Machine.object?_eq_of_objects h.objects]
  data := h.dataObjects
  nextHandle := Nat.le_of_eq h.nextHandle.symm
  calls := h.calls

/-- Calls that change nothing add nothing. -/
theorem adds {p : Object K → Prop} {m m' : Machine K} (h : m.Ticked m') : Machine.Adds p m m' :=
  ⟨⟨[], by rw [h.objects, List.append_nil], by simp⟩, Nat.le_of_eq h.nextHandle.symm, h.calls⟩

end Machine.Ticked

section

variable (hsm : Hsm K D) (objectLabel : String) (absent : R) (toVec : R → Except String Bytes)
  (fromSlice : Bytes → Except String R)

/-- Loading returns the stored record and changes nothing; on a token that serves every call it can
fail only where the stored record cannot be read. -/
theorem wp_loadRecord (m : Machine K) :
    wp (Program.run hsm.exec (loadRecord objectLabel absent fromSlice : TokenProgram K D _ _))
      (fun record m' => hsm.stored objectLabel fromSlice absent m = .ok record ∧ m.Ticked m')
      (fun e m' => (hsm.FaultFree → hsm.stored objectLabel fromSlice absent m = .error e) ∧
        m.Ticked m') m := by
  have hfault {c : Nat} {e : CryptokiError} {P : Prop} (h : hsm.fault c = some e) :
      hsm.FaultFree → P := fun hfree => by simp [hfree c] at h
  simp only [loadRecord, Program.wp_run_bind, Session.wp_findObjects]
  refine ⟨fun e he => ⟨hfault he, .tick m⟩, fun _ => ?_⟩
  rw [Machine.search_eq]
  cases hmatching : m.matching (recordQuery objectLabel) with
  | nil =>
      simp only [List.map_nil, Program.pure_eq, Program.wp_run_done]
      exact ⟨by simp [Hsm.stored, Hsm.records, hmatching], .tick m⟩
  | cons entry rest =>
      have hobject : m.tick.object? entry.1 = some entry.2 :=
        m.object?_of_mem_matching
          (show entry ∈ m.matching (recordQuery objectLabel) by simp [hmatching])
      have hstored : hsm.stored objectLabel fromSlice absent m =
          hsm.recordOf objectLabel fromSlice entry := by
        simp [Hsm.stored, Hsm.records, hmatching]
      simp only [List.map_cons, Program.wp_run_bind, Session.wp_getAttributes, hobject,
        Program.wp_run_ofExcept]
      refine ⟨fun e he => ⟨hfault he, .tick_tick m⟩, fun _ => ⟨fun record hrecord => ?_, fun e he => ?_⟩⟩
      · exact ⟨hstored.trans hrecord, .tick_tick m⟩
      · exact ⟨fun _ => hstored.trans he, .tick_tick m⟩

/-- Destroying what a search found, one object after the other: a failure leaves the objects after
those already destroyed. -/
theorem wp_destroyAll (template : List Attribute) (entries : List (ObjectHandle × Object K)) :
    ∀ m : Machine K, m.matching template = entries →
      wp (Program.run hsm.exec (destroyAll (entries.map Prod.fst) : TokenProgram K D _ _))
        (fun _ m' => hsm.servedFrom m.calls entries.length = entries.length ∧
          m'.objects = m.objects.filter (fun entry => !entry.2.matches template) ∧
          m'.nextHandle = m.nextHandle ∧ m'.calls = m.calls + entries.length)
        (fun _ m' => hsm.servedFrom m.calls entries.length < entries.length ∧
          m'.matching template = entries.drop (hsm.servedFrom m.calls entries.length)) m := by
  induction entries with
  | nil =>
      intro m hmatching
      rw [List.map_nil, destroyAll, Program.pure_eq, Program.wp_run_done]
      exact ⟨rfl, (m.filter_of_matching_nil hmatching).symm, rfl, rfl⟩
  | cons entry rest ih =>
      intro m hmatching
      have hobject : m.object? entry.1 = some entry.2 :=
        m.object?_of_mem_matching (show entry ∈ m.matching template by simp [hmatching])
      simp only [List.map_cons, destroyAll, Program.wp_run_bind, Session.wp_destroyObject, hobject,
        List.length_cons]
      refine ⟨fun e he => ?_, fun hserved => ?_⟩
      · simp only [Hsm.servedFrom, he]
        exact ⟨Nat.succ_pos _, by simpa [Machine.matching] using hmatching⟩
      · have hrest := ih (m.destroy entry.1).tick (m.matching_destroy_head hmatching)
        simp only [Hsm.servedFrom, hserved, Machine.calls_tick, Machine.calls_destroy] at hrest ⊢
        refine wp_mono hrest (fun _ m' h => ?_) (fun _ m' h => ?_)
        · obtain ⟨hall, hobjects, hnext, hcalls⟩ := h
          refine ⟨by omega, ?_, hnext, by omega⟩
          rw [hobjects, Machine.objects_tick]
          exact m.filter_destroy_of_mem_matching (by simp [hmatching])
        · exact ⟨by omega, by simpa using h.2⟩

/-- How many of the objects under a label a replacement destroys before a call fails. -/
def Hsm.destroyedBy (m : Machine K) : Nat :=
  match hsm.fault m.calls with
  | some _ => 0
  | none => hsm.servedFrom (m.calls + 1) (m.matching (recordQuery objectLabel)).length

theorem Hsm.destroyedBy_le (m : Machine K) :
    hsm.destroyedBy objectLabel m ≤ (m.matching (recordQuery objectLabel)).length := by
  unfold Hsm.destroyedBy
  split
  · exact Nat.zero_le _
  · exact hsm.servedFrom_le _ _

/-- The object a record is stored in. -/
def recordObject (bytes : Bytes) : Object K := ⟨recordTemplate objectLabel bytes, none⟩

/-- The objects under a label have been replaced by one that holds `bytes`. -/
structure Machine.Replaces (bytes : Bytes) (m m' : Machine K) : Prop where
  objects : m'.objects = m.objects.filter (fun entry => !entry.2.matches (recordQuery objectLabel)) ++
    [(m.nextHandle, recordObject objectLabel bytes)]
  nextHandle : m'.nextHandle = m.nextHandle + 1
  calls : m.calls ≤ m'.calls

/-- A replacement that succeeds leaves one object under the label; one that fails leaves the objects
it had not destroyed yet. -/
theorem wp_saveRecord (record : R) (m : Machine K) :
    wp (Program.run hsm.exec (saveRecord objectLabel toVec record : TokenProgram K D _ _))
      (fun _ m' => ∃ bytes, toVec record = .ok bytes ∧ Machine.Replaces objectLabel bytes m m')
      (fun e m' => m'.matching (recordQuery objectLabel) =
          (m.matching (recordQuery objectLabel)).drop (hsm.destroyedBy objectLabel m) ∧
        (hsm.FaultFree → ∃ reason, toVec record = .error reason ∧ e = .err (.serialization reason))) m := by
  simp only [saveRecord, Program.wp_run_bind, Session.wp_findObjects]
  refine ⟨fun e he => ⟨?_, fun hfree => by simp [hfree m.calls] at he⟩, fun hserved => ?_⟩
  · simp only [Hsm.destroyedBy, he, List.drop_zero]
    rfl
  have hdestroy := wp_destroyAll hsm (recordQuery objectLabel)
    (m.matching (recordQuery objectLabel)) m.tick rfl
  refine wp_mono hdestroy (fun _ m' h => ?_) (fun e m' h => ⟨?_, fun hfree => ?_⟩)
  · obtain ⟨hall, hobjects, hnext, hcalls⟩ := h
    have hempty : m'.matching (recordQuery objectLabel) =
        (m.matching (recordQuery objectLabel)).drop (hsm.destroyedBy objectLabel m) := by
      simp only [Hsm.destroyedBy, hserved]
      rw [Machine.calls_tick] at hall
      rw [hall, List.drop_length, Machine.matching, hobjects, List.filter_filter]
      exact List.filter_eq_nil_iff.mpr fun entry _ => by simp
    cases htoVec : toVec record with
    | error reason =>
        simp only [Program.throw_eq, Program.wp_run_stop]
        exact ⟨hempty, fun _ => ⟨reason, rfl, rfl⟩⟩
    | ok bytes =>
        simp only [Session.wp_createObject]
        refine ⟨fun e he => ⟨hempty, fun hfree => by simp [hfree m'.calls] at he⟩, fun _ => ?_⟩
        refine ⟨bytes, rfl, ?_, ?_, ?_⟩
        · simp only [Machine.objects_tick, Machine.objects_create, hobjects, hnext,
            Machine.nextHandle_tick, recordObject]
        · simp only [Machine.nextHandle_tick, Machine.nextHandle_create, hnext]
        · simp only [Machine.calls_tick, Machine.calls_create] at hcalls ⊢
          omega
  · simp only [Hsm.destroyedBy, hserved]
    exact h.2
  · have hlt := h.1
    rw [hsm.servedFrom_of_faultFree hfree] at hlt
    exact absurd hlt (Nat.lt_irrefl _)

end

end EmvaultPkcs11
