import EmvaultPkcs11.Elements
import EmvaultPkcs11.TokenConduct

/-! The operations of the crate mind the rule on a shared token: each program call by call, and the signing calls
through the programs they run. So any number of operations, on any labels and under any faults, leave alone what
does not belong to those labels. -/

open Effect Program

namespace EmvaultPkcs11

variable {K D X T ε ε' α : Type} {hsm : Hsm K D} {label : String} {start : ObjectHandle} {m : Machine K}

/-! ### Single calls -/

/-- The next handle never goes down. -/
theorem Hsm.nextHandle_le_exec (hsm : Hsm K D) (call : Call D) (m : Machine K) :
    m.nextHandle ≤ (hsm.exec call m).2.nextHandle := by
  unfold Hsm.exec
  cases hsm.fault m.calls with
  | some e => exact Nat.le_refl _
  | none =>
      cases call with
      | findObjects template => exact Nat.le_refl _
      | getAttributes handle types =>
          simp only [Hsm.serve]
          cases m.object? handle <;> exact Nat.le_refl _
      | destroyObject handle =>
          simp only [Hsm.serve]
          cases m.object? handle <;> exact Nat.le_refl _
      | createObject template => exact Nat.le_succ _
      | deriveKey mechanism base template =>
          simp only [Hsm.serve]
          cases m.object? base with
          | none => exact Nat.le_refl _
          | some object =>
              cases hderive : hsm.derive mechanism object with
              | error e => simp only [hderive, Machine.nextHandle_tick, Nat.le_refl]
              | ok key => simp only [hderive, Machine.nextHandle_tick, Machine.nextHandle_create, Nat.le_succ]
      | sign handle digest =>
          simp only [Hsm.serve]
          cases m.object? handle with
          | none => exact Nat.le_refl _
          | some object => cases hkey : object.key <;> simp only [hkey, Machine.nextHandle_tick, Nat.le_refl]
      | now => exact Nat.le_refl _

/-- A created object has the next handle. -/
theorem Hsm.handle_of_createObject {template : List Attribute} {handle : ObjectHandle}
    (h : (hsm.exec (.createObject template) m).1 = .ok handle) : handle = m.nextHandle := by
  unfold Hsm.exec at h
  cases hfault : hsm.fault m.calls with
  | some e =>
      rw [hfault] at h
      cases h
  | none =>
      rw [hfault] at h
      exact (Except.ok.inj h).symm

/-- So has a derived key. -/
theorem Hsm.handle_of_deriveKey {mechanism : Mechanism} {base handle : ObjectHandle} {template : List Attribute}
    (h : (hsm.exec (.deriveKey mechanism base template) m).1 = .ok handle) : handle = m.nextHandle := by
  unfold Hsm.exec at h
  cases hfault : hsm.fault m.calls with
  | some e =>
      rw [hfault] at h
      cases h
  | none =>
      rw [hfault] at h
      simp only [Hsm.serve] at h
      cases hobject : m.object? base with
      | none =>
          rw [hobject] at h
          cases h
      | some object =>
          rw [hobject] at h
          cases hderive : hsm.derive mechanism object with
          | error e =>
              simp only [hderive] at h
              cases h
          | ok key =>
              simp only [hderive] at h
              exact (Except.ok.inj h).symm

/-- A call to destroy leaves no object that was not there. -/
theorem Hsm.object?_of_destroyObject {handle other : ObjectHandle} {object : Object K}
    (h : (hsm.exec (.destroyObject handle) m).2.object? other = some object) : m.object? other = some object := by
  unfold Hsm.exec at h
  cases hfault : hsm.fault m.calls with
  | some e =>
      rw [hfault] at h
      exact h
  | none =>
      rw [hfault] at h
      simp only [Hsm.serve] at h
      cases hhandle : m.object? handle with
      | none =>
          rw [hhandle] at h
          exact h
      | some _ =>
          rw [hhandle] at h
          exact m.object?_of_destroy h

/-- An operation that minds the rule ends where handles from its start on are still its own. -/
theorem minds_withStart {p : TokenProgram K D ε α} {Q : α → Machine K → Prop}
    (h : Minds hsm.exec (Conduct label start) Q p m) (hstart : start ≤ m.nextHandle) :
    Minds hsm.exec (Conduct label start) (fun a m' => Q a m' ∧ start ≤ m'.nextHandle) p m := by
  have hnext := wp_run_rel hsm.exec (R := fun m m' : Machine K => m.nextHandle ≤ m'.nextHandle)
    (fun _ => Nat.le_refl _) (fun _ _ _ => Nat.le_trans) hsm.nextHandle_le_exec p m
  exact h.and_wp (wp_mono hnext (fun _ _ h' => hstart.trans h') fun _ _ h' => h')

section

variable {allowed : Call D → Machine K → Prop} (wrap : CryptokiError → ε)

theorem minds_orStop {reply : Except CryptokiError α} {Q : α → Machine K → Prop}
    (h : ∀ a, reply = .ok a → Q a m) :
    Minds hsm.exec allowed Q (orStop wrap reply : TokenProgram K D ε α) m := by
  cases reply with
  | ok a => exact h a rfl
  | error e => trivial

theorem minds_request {call : Call D} {result : Reply K call → Except CryptokiError α}
    {Q : α → Machine K → Prop} (hallowed : allowed call m)
    (h : ∀ a, result (hsm.exec call m).1 = .ok a → Q a (hsm.exec call m).2) :
    Minds hsm.exec allowed Q (Session.request wrap call result) m :=
  ⟨hallowed, minds_orStop wrap h⟩

/-- What a search returns is what it found. -/
theorem minds_findObjects {template : List Attribute} {Q : List ObjectHandle → Machine K → Prop}
    (hallowed : allowed (.findObjects template) m) (h : Q (m.search template) m.tick) :
    Minds hsm.exec allowed Q (Session.findObjects wrap template) m := by
  unfold Session.findObjects
  refine minds_request wrap hallowed fun handles hreply => ?_
  unfold Hsm.exec at hreply ⊢
  cases hfault : hsm.fault m.calls with
  | some e =>
      rw [hfault] at hreply
      cases hreply
  | none =>
      rw [hfault] at hreply
      obtain rfl := Except.ok.inj hreply
      exact h

end

/-- The handle is that of an object a search finds, or of none. -/
def Machine.Matches (m : Machine K) (template : List Attribute) (handle : ObjectHandle) : Prop :=
  ∀ object, m.object? handle = some object → object.matches template = true

theorem Machine.matches_of_mem_search {template : List Attribute} {handle : ObjectHandle}
    (hmem : handle ∈ m.search template) : m.Matches template handle := by
  intro object hobject
  obtain ⟨entry, hentry, rfl⟩ := List.mem_map.mp hmem
  rw [m.object?_of_mem_matching hentry] at hobject
  rw [← Option.some.inj hobject]
  exact (List.mem_filter.mp hentry).2

/-- What a search has found may be destroyed one after the other, if each object may be. -/
theorem minds_destroyAll {allowed : Call D → Machine K → Prop} {template : List Attribute}
    (hallowed : ∀ handle (m : Machine K), m.Matches template handle → allowed (.destroyObject handle) m)
    (handles : List ObjectHandle) :
    ∀ m : Machine K, (∀ handle ∈ handles, m.Matches template handle) →
      Minds hsm.exec allowed (fun _ _ => True) (destroyAll handles) m := by
  induction handles with
  | nil => exact fun m _ => trivial
  | cons handle rest ih =>
      intro m hfound
      rw [destroyAll, minds_bind, Session.destroyObject]
      refine minds_request _ (hallowed handle m (hfound handle List.mem_cons_self)) fun _ _ => ?_
      refine ih _ fun other hother object hobject => ?_
      exact hfound other (List.mem_cons_of_mem handle hother) object (Hsm.object?_of_destroyObject hobject)

theorem belongsTo_of_matches {query : List Attribute} {object : Object K} (hquery : query ∈ ownQueries label)
    (hmatches : object.matches query = true) : object.belongsTo label = true :=
  List.any_eq_true.mpr ⟨query, hquery, hmatches⟩

/-! ### Records and keys -/

/-- A rule allows what reading and replacing the record under a label takes. -/
structure AllowsRecord (allowed : Call D → Machine K → Prop) (objectLabel : String) : Prop where
  find : ∀ m, allowed (.findObjects (recordQuery objectLabel)) m
  read : ∀ handle m, m.Matches (recordQuery objectLabel) handle → allowed (.getAttributes handle [.value]) m
  destroy : ∀ handle m, m.Matches (recordQuery objectLabel) handle → allowed (.destroyObject handle) m
  create : ∀ bytes m, allowed (.createObject (recordTemplate objectLabel bytes)) m

theorem data_of_matches {objectLabel : String} {object : Object K}
    (h : object.matches (recordQuery objectLabel) = true) : .objectClass .data ∈ object.attributes := by
  have hmatches := List.all_eq_true.mp h
  simpa using hmatches (.objectClass .data) (by simp [recordQuery])

/-- The conduct towards a label allows what its own records take. -/
theorem Conduct.allowsRecord {objectLabel : String} (hquery : recordQuery objectLabel ∈ ownQueries label)
    (hmade : ∀ bytes, MadeFor label (recordTemplate objectLabel bytes)) :
    AllowsRecord (Conduct label start : Call D → Machine K → Prop) objectLabel where
  find _ := trivial
  read _ _ hmatches _ object hobject := data_of_matches (hmatches object hobject)
  destroy _ _ hmatches object hobject := Or.inr (belongsTo_of_matches hquery (hmatches object hobject))
  create bytes _ := hmade bytes

theorem allowsRecord_policy (label : String) (start : ObjectHandle) :
    AllowsRecord (Conduct label start : Call D → Machine K → Prop) (policyLabel label) :=
  Conduct.allowsRecord (by simp [ownQueries]) (madeFor_recordTemplate_policy label)

theorem allowsRecord_sigrate (label : String) (start : ObjectHandle) :
    AllowsRecord (Conduct label start : Call D → Machine K → Prop) (sigrateLabel label) :=
  Conduct.allowsRecord (by simp [ownQueries]) (madeFor_recordTemplate_sigrate label)

section

variable {allowed : Call D → Machine K → Prop} {R : Type} {objectLabel : String}
  {fromSlice : Bytes → Except String R} {toVec : R → Except String Bytes}

theorem minds_loadRecord (h : AllowsRecord allowed objectLabel) (absent : R) :
    Minds hsm.exec allowed (fun _ _ => True) (loadRecord objectLabel absent fromSlice) m := by
  rw [loadRecord, minds_bind]
  apply minds_findObjects _ (h.find m)
  cases hfound : m.search (recordQuery objectLabel) with
  | nil => trivial
  | cons handle rest =>
      rw [minds_bind]
      have hmem : handle ∈ m.search (recordQuery objectLabel) := hfound ▸ List.mem_cons_self
      refine minds_request _ (h.read handle m.tick (m.matches_of_mem_search hmem)) fun _ _ => ?_
      exact minds_ofExcept _ |>.mpr fun _ _ => trivial

theorem minds_saveRecord (h : AllowsRecord allowed objectLabel) (record : R) :
    Minds hsm.exec allowed (fun _ _ => True) (saveRecord objectLabel toVec record) m := by
  rw [saveRecord, minds_bind]
  apply minds_findObjects _ (h.find m)
  rw [minds_bind]
  refine (minds_destroyAll h.destroy _ m.tick fun handle hmem => m.matches_of_mem_search hmem).mono fun _ m' _ => ?_
  cases toVec record with
  | error e => trivial
  | ok bytes => exact minds_request _ (h.create bytes m') fun _ _ => trivial

variable (serde : Serde)

theorem minds_loadPolicy (h : AllowsRecord allowed (policyLabel label)) :
    Minds hsm.exec allowed (fun _ _ => True) (loadPolicy serde label) m := minds_loadRecord h _

theorem minds_savePolicy (h : AllowsRecord allowed (policyLabel label)) (policy : MinimalHsmPolicy) :
    Minds hsm.exec allowed (fun _ _ => True) (savePolicy serde label policy) m := minds_saveRecord h policy

theorem minds_loadSigrate (h : AllowsRecord allowed (sigrateLabel label)) :
    Minds hsm.exec allowed (fun _ _ => True) (loadSigrate serde label) m := minds_loadRecord h _

theorem minds_saveSigrate (h : AllowsRecord allowed (sigrateLabel label)) (counter : SigRateCounter) :
    Minds hsm.exec allowed (fun _ _ => True) (saveSigrate serde label counter) m := by
  rw [saveSigrate, minds_bind]
  exact (minds_saveRecord h counter).mono fun _ _ _ => trivial

theorem minds_checkAndRecordSigrate (h : AllowsRecord allowed (sigrateLabel label)) (hnow : ∀ m, allowed .now m)
    (policy : MinimalHsmPolicy) :
    Minds hsm.exec allowed (fun _ _ => True) (checkAndRecordSigrate serde label policy) m := by
  unfold checkAndRecordSigrate
  cases policy.maxSignaturesPerHour with
  | none => trivial
  | some max =>
      rw [minds_bind, recordSigrate, minds_bind]
      refine (minds_loadSigrate serde h).mono fun counter m₁ _ => ?_
      rw [minds_bind]
      refine ⟨hnow m₁, ?_⟩
      rw [minds_done, minds_bind, minds_ofExcept]
      intro counted _
      dsimp only
      split
      · trivial
      · rw [minds_bind]
        exact (minds_saveSigrate serde h _).mono fun _ _ _ => trivial

variable (label)

theorem minds_findKeyByLabel :
    Minds hsm.exec (Conduct label start) (fun _ _ => True) (findKeyByLabel label : TokenProgram K D _ _) m := by
  rw [findKeyByLabel, minds_bind]
  refine minds_findObjects _ (show Conduct label start (.findObjects _) m from trivial) ?_
  split <;> trivial

theorem minds_deleteKey :
    Minds hsm.exec (Conduct label start) (fun _ _ => True) (deleteKey label : TokenProgram K D _ _) m := by
  have hround (kind : String × ObjectClass)
      (hquery : [Attribute.objectClass kind.2, .label s!"{PREFIX}.{label}.{kind.1}"] ∈ ownQueries label)
      (m : Machine K) :
      Minds hsm.exec (Conduct label start) (fun _ _ => True) (deleteMatching label kind : TokenProgram K D _ _) m := by
    rw [deleteMatching, minds_bind]
    refine minds_findObjects _ (show Conduct label start (.findObjects _) m from trivial) ?_
    refine minds_destroyAll (fun handle m' hmatches object hobject => Or.inr ?_) _ m.tick
      fun handle hmem => m.matches_of_mem_search hmem
    exact belongsTo_of_matches hquery (hmatches object hobject)
  rw [deleteKey, minds_bind]
  refine (hround (PRIV_SUFFIX, .privateKey) ?_ m).mono fun _ m₁ _ => hround (PUB_SUFFIX, .publicKey) ?_ m₁
  · simp [ownQueries, keyQuery, privLabel]
  · simp [ownQueries, pubQuery, pubLabel]

end

end EmvaultPkcs11
