import EmvaultPkcs11.KeyRemoval
import EmvaultPkcs11.LibraryGuard

/-! How the crate behaves towards a token that others use too. The rule says which calls may be made on behalf of
a label: searches and signatures always; a `CKA_VALUE` is read of data objects only; what is created is private,
no readable key, and named after the label or not at all; what is destroyed belongs to the label or was made by
the same operation. It is stated for calls that may fail at any time. -/

open Effect Program

namespace EmvaultPkcs11

variable {K D : Type}

/-! ### What belongs to a label -/

/-- The templates the crate searches by for what belongs to a label. -/
def ownQueries (label : String) : List (List Attribute) :=
  [recordQuery (policyLabel label), recordQuery (sigrateLabel label), keyQuery label, pubQuery label]

/-- Some search for the label finds the object. -/
def Object.belongsTo (object : Object K) (label : String) : Bool :=
  (ownQueries label).any fun query => object.matches query

/-- The name a master key of the label is created under. -/
def masterName (label : String) : String := s!"{privLabel label}/priv"

/-- The names objects are created under. -/
def madeNames (label : String) : List String := [policyLabel label, sigrateLabel label, masterName label]

/-- A template of a private object that is a data object, or a key that no one can read. -/
def Sealed (attributes : List Attribute) : Prop :=
  (∀ b, .isPrivate b ∈ attributes ↔ b = true) ∧
    ((∀ c, .objectClass c ∈ attributes ↔ c = .data) ∨
      (∀ b, .sensitive b ∈ attributes ↔ b = true) ∧ ∀ b, .extractable b ∈ attributes ↔ b = false)

/-- A template the crate may create an object from. -/
def MadeFor (label : String) (attributes : List Attribute) : Prop :=
  Sealed attributes ∧ ∀ name, .label name ∈ attributes → name ∈ madeNames label

theorem madeFor_recordTemplate_policy (label : String) (bytes : Bytes) :
    MadeFor label (recordTemplate (policyLabel label) bytes) := by
  simp [MadeFor, Sealed, recordTemplate, madeNames]

theorem madeFor_recordTemplate_sigrate (label : String) (bytes : Bytes) :
    MadeFor label (recordTemplate (sigrateLabel label) bytes) := by
  simp [MadeFor, Sealed, recordTemplate, madeNames]

theorem madeFor_masterKeyTemplate (label : String) : MadeFor label (masterKeyTemplate (privLabel label)) := by
  simp [MadeFor, Sealed, masterKeyTemplate, madeNames, masterName]

theorem madeFor_childKeyTemplate (label : String) : MadeFor label childKeyTemplate := by
  simp [MadeFor, Sealed, childKeyTemplate]

theorem madeFor_seedSecretTemplate (label : String) (seed : Bytes) : MadeFor label (seedSecretTemplate seed) := by
  simp [MadeFor, Sealed, seedSecretTemplate]

/-! ### The rule -/

/-- The calls an operation on a label may make, which began when `start` was the next handle. -/
def Conduct (label : String) (start : ObjectHandle) : Call D → Machine K → Prop
  | .findObjects _, _ => True
  | .getAttributes handle types, m =>
      .value ∈ types → ∀ object, m.object? handle = some object → .objectClass .data ∈ object.attributes
  | .destroyObject handle, m =>
      ∀ object, m.object? handle = some object → start ≤ handle ∨ object.belongsTo label = true
  | .createObject template, _ => MadeFor label template
  | .deriveKey _ _ template, _ => MadeFor label template
  | .sign _ _, _ => True
  | .now, _ => True

/-- `m'` is `m` after operations on some labels that minded the rule. -/
structure Machine.Respects (labels : List String) (m m' : Machine K) : Prop where
  nextHandle : m.nextHandle ≤ m'.nextHandle
  old : ∀ entry ∈ m'.objects, entry.1 < m.nextHandle → entry ∈ m.objects
  foreign : (m'.objects.filter fun entry => entry.1 < m.nextHandle && !labels.any entry.2.belongsTo) =
    m.objects.filter fun entry => !labels.any entry.2.belongsTo
  made : ∀ entry ∈ m'.objects, m.nextHandle ≤ entry.1 → ∃ label ∈ labels, MadeFor label entry.2.attributes

namespace Machine.Respects

variable {labels labels' : List String} {label : String} {m m' m'' : Machine K}

theorem refl (labels : List String) (m : Machine K) : m.Respects labels m where
  nextHandle := Nat.le_refl _
  old entry hentry _ := hentry
  foreign := by
    refine List.filter_congr fun entry hentry => ?_
    rw [decide_eq_true (m.handles_lt entry hentry), Bool.true_and]
  made entry hentry hle := absurd (m.handles_lt entry hentry) (Nat.not_lt.mpr hle)

theorem trans (h : m.Respects labels m') (h' : m'.Respects labels m'') : m.Respects labels m'' where
  nextHandle := h.nextHandle.trans h'.nextHandle
  old entry hentry hlt := h.old entry (h'.old entry hentry (hlt.trans_le h.nextHandle)) hlt
  foreign := by
    have hlater (entry : ObjectHandle × Object K) :
        (decide (entry.1 < m.nextHandle) && !labels.any entry.2.belongsTo) =
          (decide (entry.1 < m.nextHandle) &&
            (decide (entry.1 < m'.nextHandle) && !labels.any entry.2.belongsTo)) := by
      by_cases hlt : entry.1 < m.nextHandle
      · simp only [hlt, hlt.trans_le h.nextHandle, decide_true, Bool.true_and]
      · simp only [hlt, decide_false, Bool.false_and]
    calc m''.objects.filter (fun entry => entry.1 < m.nextHandle && !labels.any entry.2.belongsTo)
      _ = (m''.objects.filter fun entry => entry.1 < m'.nextHandle && !labels.any entry.2.belongsTo).filter
            fun entry => entry.1 < m.nextHandle := by
          rw [List.filter_filter]
          exact List.filter_congr fun entry _ => hlater entry
      _ = (m'.objects.filter fun entry => !labels.any entry.2.belongsTo).filter
            fun entry => entry.1 < m.nextHandle := by rw [h'.foreign]
      _ = m.objects.filter fun entry => !labels.any entry.2.belongsTo := by rw [List.filter_filter, ← h.foreign]
  made entry hentry hle := by
    by_cases hlt : entry.1 < m'.nextHandle
    · exact h.made entry (h'.old entry hentry hlt) hle
    · exact h'.made entry hentry (Nat.le_of_not_lt hlt)

/-- More labels allow more. -/
theorem mono (h : m.Respects labels m') (hsub : labels ⊆ labels') : m.Respects labels' m' where
  nextHandle := h.nextHandle
  old := h.old
  foreign := by
    have hnot (object : Object K) : (!labels'.any object.belongsTo) =
        (!labels'.any object.belongsTo && !labels.any object.belongsTo) := by
      cases hany : labels.any object.belongsTo with
      | false => rw [Bool.not_false, Bool.and_true]
      | true =>
          obtain ⟨label, hlabel, hbelongs⟩ := List.any_eq_true.mp hany
          have hany' : labels'.any object.belongsTo = true :=
            List.any_eq_true.mpr ⟨label, hsub hlabel, hbelongs⟩
          simp only [hany', Bool.not_true, Bool.and_false]
    calc m'.objects.filter (fun entry => entry.1 < m.nextHandle && !labels'.any entry.2.belongsTo)
      _ = (m'.objects.filter fun entry => entry.1 < m.nextHandle && !labels.any entry.2.belongsTo).filter
            fun entry => !labels'.any entry.2.belongsTo := by
          rw [List.filter_filter]
          refine List.filter_congr fun entry _ => ?_
          rw [Bool.and_left_comm, ← hnot entry.2]
      _ = m.objects.filter fun entry => !labels'.any entry.2.belongsTo := by
          rw [h.foreign, List.filter_filter]
          exact List.filter_congr fun entry _ => (hnot entry.2).symm
  made entry hentry hle := by
    obtain ⟨label, hlabel, hmade⟩ := h.made entry hentry hle
    exact ⟨label, hsub hlabel, hmade⟩

theorem of_objects (h : m.Respects labels m') (hobjects : m''.objects = m'.objects)
    (hnext : m''.nextHandle = m'.nextHandle) : m.Respects labels m'' := by
  refine ⟨hnext ▸ h.nextHandle, ?_, ?_, ?_⟩
  · rw [hobjects]
    exact h.old
  · rw [hobjects]
    exact h.foreign
  · rw [hobjects]
    exact h.made

theorem create (h : m.Respects [label] m') (object : Object K) (hmade : MadeFor label object.attributes) :
    m.Respects [label] (m'.create object) where
  nextHandle := h.nextHandle.trans (Nat.le_succ _)
  old entry hentry hlt := by
    rw [objects_create] at hentry
    rcases List.mem_append.mp hentry with hentry | hentry
    · exact h.old entry hentry hlt
    · rw [List.mem_singleton.mp hentry] at hlt
      exact absurd hlt (Nat.not_lt.mpr h.nextHandle)
  foreign := by
    rw [objects_create, List.filter_append, h.foreign, List.filter_singleton]
    have hlt : ¬m'.nextHandle < m.nextHandle := Nat.not_lt.mpr h.nextHandle
    simp only [hlt, decide_false, Bool.false_and, List.append_nil, cond_false]
  made entry hentry hle := by
    rw [objects_create] at hentry
    rcases List.mem_append.mp hentry with hentry | hentry
    · exact h.made entry hentry hle
    · rw [List.mem_singleton.mp hentry]
      exact ⟨label, List.mem_singleton_self label, hmade⟩

theorem destroy (h : m.Respects [label] m') {handle : ObjectHandle}
    (hown : ∀ object, m'.object? handle = some object → m.nextHandle ≤ handle ∨ object.belongsTo label = true) :
    m.Respects [label] (m'.destroy handle) where
  nextHandle := h.nextHandle
  old entry hentry hlt := h.old entry (List.mem_of_mem_filter hentry) hlt
  foreign := by
    rw [objects_destroy, List.filter_filter, ← h.foreign]
    refine List.filter_congr fun entry hentry => ?_
    by_cases hhandle : entry.1 = handle
    · have hobject : m'.object? handle = some entry.2 :=
        (m'.object?_eq_some_iff handle entry.2).mpr (hhandle ▸ hentry)
      rcases hown entry.2 hobject with hle | hbelongs
      · have hlt : ¬entry.1 < m.nextHandle := Nat.not_lt.mpr (hhandle ▸ hle)
        simp only [hlt, decide_false, Bool.false_and]
      · simp only [List.any_cons, hbelongs, Bool.true_or, Bool.not_true, Bool.and_false, Bool.false_and]
    · simp [hhandle]
  made entry hentry hle := h.made entry (List.mem_of_mem_filter hentry) hle

end Machine.Respects

/-- A call that minds the rule keeps what is not its own, whether the token serves it or not. -/
theorem Hsm.exec_respects (hsm : Hsm K D) {label : String} {m : Machine K} (call : Call D) (m' : Machine K)
    (hallowed : Conduct label m.nextHandle call m') (h : m.Respects [label] m') :
    m.Respects [label] (hsm.exec call m').2 := by
  have htick : m.Respects [label] m'.tick := h.of_objects rfl rfl
  unfold Hsm.exec
  cases hsm.fault m'.calls with
  | some e => exact htick
  | none =>
      cases call with
      | findObjects template => exact htick
      | getAttributes handle types =>
          simp only [Hsm.serve]
          cases m'.object? handle <;> exact htick
      | destroyObject handle =>
          simp only [Hsm.serve]
          cases hobject : m'.object? handle with
          | none => exact htick
          | some object => exact (h.destroy hallowed).of_objects rfl rfl
      | createObject template => exact (h.create ⟨template, none⟩ hallowed).of_objects rfl rfl
      | deriveKey mechanism base template =>
          simp only [Hsm.serve]
          cases m'.object? base with
          | none => exact htick
          | some object =>
              cases hderive : hsm.derive mechanism object with
              | error e => simpa only [hderive] using htick
              | ok key =>
                  simp only [hderive]
                  exact (h.create ⟨template, some key⟩ hallowed).of_objects rfl rfl
      | sign handle digest =>
          simp only [Hsm.serve]
          cases m'.object? handle with
          | none => exact htick
          | some object =>
              cases hkey : object.key with
              | none => simpa only [hkey] using htick
              | some key => simpa only [hkey] using htick
      | now => exact htick

end EmvaultPkcs11
