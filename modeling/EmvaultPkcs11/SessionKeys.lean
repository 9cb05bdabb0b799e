import EmvaultPkcs11.VendorBehaviour

/-! The keys on the token that live as long as the session. The records a call stores are data objects, so
storing them leaves these keys alone. Deriving a path makes one such key for each segment. -/

open Effect

namespace EmvaultPkcs11

variable {K D : Type}

/-- A key object that lives as long as the session. -/
def Object.IsSessionKey (object : Object K) : Prop :=
  .token false ∈ object.attributes ∧ .objectClass .data ∉ object.attributes

instance (object : Object K) : Decidable object.IsSessionKey :=
  inferInstanceAs (Decidable (_ ∧ _))

namespace Machine

variable (m : Machine K)

/-- The live session-only keys, with their handles. -/
def sessionKeys : List (ObjectHandle × Object K) := m.objects.filter fun entry => entry.2.IsSessionKey

/-- The same session-only keys are live in `m` and in `m'`. -/
def SameSessionKeys (m m' : Machine K) : Prop := ∀ entry, entry ∈ m'.sessionKeys ↔ entry ∈ m.sessionKeys

variable {m}

theorem sessionKeys_of_objects {m' : Machine K} (h : m'.objects = m.objects) : m'.sessionKeys = m.sessionKeys := by
  rw [sessionKeys, h, sessionKeys]

theorem SameSessionKeys.of_eq {m' : Machine K} (h : m'.sessionKeys = m.sessionKeys) : m.SameSessionKeys m' := by
  intro entry
  rw [h]

theorem sessionKeys_create_data {object : Object K} (hdata : .objectClass .data ∈ object.attributes) :
    (m.create object).sessionKeys = m.sessionKeys := by
  simp [sessionKeys, Object.IsSessionKey, hdata]

theorem sessionKeys_destroy_data {handle : ObjectHandle} {object : Object K} (hobject : m.object? handle = some object)
    (hdata : .objectClass .data ∈ object.attributes) : (m.destroy handle).sessionKeys = m.sessionKeys := by
  simp only [sessionKeys, objects_destroy, List.filter_filter]
  apply List.filter_congr
  intro entry hentry
  by_cases hhandle : entry.1 = handle
  · have hentry' : m.object? handle = some entry.2 := by
      rw [object?_eq_some_iff, ← hhandle]
      exact hentry
    obtain rfl := Option.some.inj (hobject.symm.trans hentry')
    simp [hhandle, Object.IsSessionKey, hdata]
  · simp [hhandle]

/-- An object that is live now and was not there before. -/
theorem objects_ne_of_live {m' : Machine K} {handle : ObjectHandle} {object : Object K}
    (hfresh : m.nextHandle ≤ handle) (hlive : m'.object? handle = some object) : m'.objects ≠ m.objects := by
  intro heq
  rw [object?_eq_of_objects heq] at hlive
  exact absurd (m.object?_lt hlive) (Nat.not_lt.mpr hfresh)

namespace Adds

variable {p : Object K → Prop} {m' m'' : Machine K}

/-- Where only keys of the session have been added, the live ones are the same exactly if none has. -/
theorem sameSessionKeys_iff (h : Adds p m m') (hp : ∀ object, p object → object.IsSessionKey) :
    m.SameSessionKeys m' ↔ m'.objects = m.objects := by
  obtain ⟨added, hobjects, hadded⟩ := h.objects
  constructor
  · intro hsame
    cases added with
    | nil => rw [hobjects, List.append_nil]
    | cons entry rest =>
        obtain ⟨hfresh, hentry⟩ := hadded entry List.mem_cons_self
        have hmem : entry ∈ m'.sessionKeys := by
          rw [sessionKeys, hobjects]
          exact List.mem_filter.mpr ⟨by simp, decide_eq_true (hp _ hentry)⟩
        have hold := List.mem_of_mem_filter ((hsame entry).mp hmem)
        exact absurd (m.handles_lt entry hold) (Nat.not_lt.mpr hfresh)
  · intro heq
    exact .of_eq (sessionKeys_of_objects heq)

/-- Two additions add nothing exactly if neither does. -/
theorem objects_eq_iff (h : Adds p m m') (h' : Adds p m' m'') :
    m''.objects = m.objects ↔ m'.objects = m.objects ∧ m''.objects = m'.objects := by
  obtain ⟨added, hobjects, _⟩ := h.objects
  obtain ⟨added', hobjects', _⟩ := h'.objects
  simp only [hobjects', hobjects, List.append_assoc, List.append_right_eq_self, List.append_cancel_left_eq,
    List.append_eq_nil_iff]

end Adds

end Machine

/-! ### Records -/

section

variable (hsm : Hsm K D)

theorem wp_destroyAll_sessionKeys (handles : List ObjectHandle) :
    ∀ m : Machine K, (∀ handle ∈ handles, ∀ object, m.object? handle = some object →
      .objectClass .data ∈ object.attributes) →
      wp (Program.run hsm.exec (destroyAll handles : TokenProgram K D _ _))
        (fun _ m' => m'.sessionKeys = m.sessionKeys) (fun _ m' => m'.sessionKeys = m.sessionKeys) m := by
  induction handles with
  | nil => exact fun m _ => rfl
  | cons handle rest ih =>
      intro m hdata
      simp only [destroyAll, Program.wp_run_bind, Session.wp_destroyObject]
      refine ⟨fun _ _ => rfl, fun _ => ?_⟩
      cases hobject : m.object? handle with
      | none => rfl
      | some object =>
          have hsame := Machine.sessionKeys_destroy_data hobject (hdata handle List.mem_cons_self object hobject)
          have hrest := ih (m.destroy handle).tick fun other hother found hfound =>
            hdata other (List.mem_cons_of_mem _ hother) found (m.object?_of_destroy hfound)
          exact wp_mono hrest (fun _ _ h => h.trans hsame) (fun _ _ h => h.trans hsame)

/-- Storing a record leaves the keys of the session alone, whether it succeeds or not. -/
theorem saveRecord_leaves_sessionKeys {R : Type} (objectLabel : String) (toVec : R → Except String Bytes) (record : R) :
    Leaves Machine.sessionKeys
      (Program.run hsm.exec (saveRecord objectLabel toVec record : TokenProgram K D _ _)) := by
  intro m
  simp only [saveRecord, Program.wp_run_bind, Session.wp_findObjects]
  refine ⟨fun _ _ => rfl, fun _ => ?_⟩
  have hfound : ∀ handle ∈ m.search (recordQuery objectLabel), ∀ object, m.tick.object? handle = some object →
      .objectClass .data ∈ object.attributes := by
    intro handle hhandle object hobject
    obtain ⟨entry, hentry, rfl⟩ := List.mem_map.mp hhandle
    obtain rfl := Option.some.inj ((m.object?_of_mem_matching hentry).symm.trans hobject)
    have hmatches := (List.mem_filter.mp hentry).2
    simp only [Object.matches, recordQuery, List.all_cons, Bool.and_eq_true, decide_eq_true_eq] at hmatches
    exact hmatches.1
  refine wp_mono (wp_destroyAll_sessionKeys hsm _ m.tick hfound) (fun _ m₁ h₁ => ?_) (fun _ _ h => h)
  cases toVec record with
  | error e => exact h₁
  | ok bytes =>
      simp only [Session.wp_createObject]
      refine ⟨fun _ _ => h₁, fun _ => ?_⟩
      exact (Machine.sessionKeys_create_data (by simp [recordTemplate])).trans h₁

theorem loadRecord_leaves_sessionKeys {R : Type} (objectLabel : String) (absent : R)
    (fromSlice : Bytes → Except String R) :
    Leaves Machine.sessionKeys
      (Program.run hsm.exec (loadRecord objectLabel absent fromSlice : TokenProgram K D _ _)) := by
  intro m
  exact wp_mono (wp_loadRecord hsm objectLabel absent fromSlice m)
    (fun _ _ h => Machine.sessionKeys_of_objects h.2.objects)
    (fun _ _ h => Machine.sessionKeys_of_objects h.2.objects)

theorem checkAndRecordSigrate_leaves_sessionKeys (serde : Serde) (label : String) (policy : MinimalHsmPolicy) :
    Leaves Machine.sessionKeys (Program.run hsm.exec (checkAndRecordSigrate serde label policy)) := by
  unfold checkAndRecordSigrate
  cases policy.maxSignaturesPerHour with
  | none => exact Leaves.pure ()
  | some max =>
      intro m
      simp only [recordSigrate, Program.wp_run_bind, Session.wp_now, Program.wp_run_ofExcept]
      refine wp_mono (loadRecord_leaves_sessionKeys hsm _ _ _ m) (fun counter m₁ h₁ => ?_) (fun _ _ h => h)
      refine ⟨fun pruned _ => ?_, fun _ _ => h₁⟩
      split
      · exact h₁
      · simp only [saveSigrate, Program.wp_run_bind]
        exact wp_mono (saveRecord_leaves_sessionKeys hsm _ _ _ m₁.tick) (fun _ _ h => h.trans h₁)
          (fun _ _ h => h.trans h₁)

end

/-! ### Derived keys -/

namespace AttributeDerivation

variable (recipe : AttributeDerivation K D) (hsm : Hsm K D)

theorem IsChild.isSessionKey {object : Object K} (h : IsChild object) : object.IsSessionKey := by
  refine ⟨?_, h.not_data⟩
  rw [h]
  simp [childKeyTemplate]

/-- The next call, which asks for a child of the object behind a handle, gives the key `key`. -/
structure DerivesChild (handle : ObjectHandle) (child : ChildNumber) (m : Machine K) (key : K) : Prop where
  served : hsm.fault m.calls = none
  derived : ∃ object, m.object? handle = some object ∧
    hsm.derive (.vendorDefined recipe.childDeriveMechanism (recipe.childParameter child)) object = .ok key

/-- The token once it has derived a child. -/
def withChild (key : K) (m : Machine K) : Machine K := (m.create ⟨childKeyTemplate, some key⟩).tick

theorem object?_withChild (key : K) (m : Machine K) :
    (withChild key m).object? m.nextHandle = some ⟨childKeyTemplate, some key⟩ :=
  m.object?_create_self _

theorem adds_withChild (key : K) (m : Machine K) : Machine.Adds IsChild m (withChild key m) := by
  have hchild : IsChild (⟨childKeyTemplate, some key⟩ : Object K) := rfl
  exact (Machine.Adds.create m hchild).trans (.tick _)

variable {recipe hsm}

theorem DerivesChild.lt {handle : ObjectHandle} {child : ChildNumber} {m : Machine K} {key : K}
    (h : recipe.DerivesChild hsm handle child m key) : handle < m.nextHandle := by
  obtain ⟨object, hobject, _⟩ := h.derived
  exact m.object?_lt hobject

theorem DerivesChild.unique {handle : ObjectHandle} {child : ChildNumber} {m : Machine K} {key key' : K}
    (h : recipe.DerivesChild hsm handle child m key) (h' : recipe.DerivesChild hsm handle child m key') :
    key' = key := by
  obtain ⟨object, hobject, hkey⟩ := h.derived
  obtain ⟨object', hobject', hkey'⟩ := h'.derived
  obtain rfl := Option.some.inj (hobject.symm.trans hobject')
  exact Except.ok.inj (hkey'.symm.trans hkey)

/-- One segment: the child, or nothing. -/
theorem wp_deriveChildKey (handle : ObjectHandle) (child : ChildNumber) (m : Machine K) :
    wp (Program.run hsm.exec (recipe.deriveChildKey handle child))
      (fun handle' m' => ∃ key, recipe.DerivesChild hsm handle child m key ∧ handle' = m.nextHandle ∧
        m' = withChild key m)
      (fun _ m' => m' = m.tick ∧ ∀ key, ¬recipe.DerivesChild hsm handle child m key) m := by
  rw [deriveChildKey, Session.wp_deriveKey]
  refine ⟨fun e he => ⟨rfl, fun key h => ?_⟩, fun hserved => ?_⟩
  · have hserved := h.served
    rw [he] at hserved
    cases hserved
  cases hobject : m.object? handle with
  | none =>
      refine ⟨rfl, fun key h => ?_⟩
      obtain ⟨object, hlive, _⟩ := h.derived
      rw [hobject] at hlive
      cases hlive
  | some object =>
      dsimp only
      cases hderive : hsm.derive
          (.vendorDefined recipe.childDeriveMechanism (recipe.childParameter child)) object with
      | error e =>
          refine ⟨rfl, fun key h => ?_⟩
          obtain ⟨object', hlive, hkey⟩ := h.derived
          obtain rfl := Option.some.inj (hobject.symm.trans hlive)
          rw [hderive] at hkey
          cases hkey
      | ok key => exact ⟨key, ⟨hserved, object, hobject, hderive⟩, rfl, rfl⟩

/-- A path: nothing where the first child is refused, else the first child and what is derived after it. The
handle that comes back is the first child's only where that is the last segment. -/
theorem wp_derivePath_cons (handle : ObjectHandle) (child : ChildNumber) (path : DerivationPath) (m : Machine K) :
    wp (Program.run hsm.exec (recipe.derivePath handle (child :: path)))
      (fun handle' m' => ∃ key, recipe.DerivesChild hsm handle child m key ∧
        Machine.Adds IsChild (withChild key m) m' ∧
        (path = [] ∧ handle' = m.nextHandle ∧ m' = withChild key m ∨
          path ≠ [] ∧ (withChild key m).nextHandle ≤ handle'))
      (fun _ m' => m' = m.tick ∧ (∀ key, ¬recipe.DerivesChild hsm handle child m key) ∨
        path ≠ [] ∧ ∃ key, recipe.DerivesChild hsm handle child m key ∧
          Machine.Adds IsChild (withChild key m) m') m := by
  rw [derivePath, Program.wp_run_bind]
  refine wp_mono (wp_deriveChildKey handle child m) (fun handle₁ m₁ h₁ => ?_) (fun _ _ h => Or.inl h)
  obtain ⟨key, hderives, rfl, rfl⟩ := h₁
  cases path with
  | nil => exact ⟨key, hderives, .refl _, Or.inl ⟨rfl, rfl, rfl⟩⟩
  | cons next path =>
      refine wp_mono (recipe.wp_derivePath hsm (next :: path) (withChild key m) m.nextHandle _
        (object?_withChild key m)) (fun handle' m' h => ?_) (fun _ m' h => ?_)
      · obtain ⟨hadds, _, _, _, hfresh⟩ := h
        refine ⟨key, hderives, hadds, Or.inr ⟨by simp, ?_⟩⟩
        rcases hfresh with ⟨hnil, _⟩ | ⟨hle, _⟩
        · cases hnil
        · exact hle
      · exact Or.inr ⟨by simp, key, hderives, h.1⟩

end AttributeDerivation

end EmvaultPkcs11
