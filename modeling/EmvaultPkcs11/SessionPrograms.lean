import EmvaultPkcs11.ParallelSessions

/-! The programs that make signers, as they run among other sessions. A ceremony looks for nothing and destroys only
the seed it has made; loading a key or a policy makes nothing. -/

open Effect Program

namespace EmvaultPkcs11

variable {K D ε ε' α β : Type} {hsm : Hsm K D} {base : ObjectHandle} {ρ : Pairing} {m : Machine K}

/-! ### Single calls -/

section

variable {wrap : CryptokiError → ε} {handle handle' : ObjectHandle} {template : List Attribute}

theorem follows_orStop (reply : Except CryptokiError α) :
    Follows hsm base Same ρ (orStop wrap reply : TokenProgram K D ε α) m (orStop wrap reply) := by
  cases reply with
  | ok a => exact (follows_done a a m).mpr rfl
  | error e => exact (follows_stop _ _ m).mpr rfl

theorem follows_orStop_handle {reply reply' : Except CryptokiError ObjectHandle}
    (h : ρ.SameHandle base reply reply') :
    Follows hsm base (fun ρ k k' => ρ k k' ∧ base ≤ k) ρ (orStop wrap reply : TokenProgram K D ε ObjectHandle) m
      (orStop wrap reply') := by
  cases reply with
  | ok handle =>
      cases reply' with
      | ok handle' => exact (follows_done handle handle' m).mpr h
      | error e => exact h.elim
  | error e =>
      cases reply' with
      | ok handle' => exact h.elim
      | error e' =>
          obtain rfl : e' = e := h
          exact (follows_stop _ _ m).mpr rfl

theorem follows_findObjects (hsearched : Searched template) :
    Follows hsm base (fun ρ found found' => found' = found ∧ ∀ handle ∈ found, ρ handle handle) ρ
      (Session.findObjects wrap template : TokenProgram K D ε _) m (Session.findObjects wrap template) := by
  refine ⟨_, _, rfl, .findObjects template hsearched, fun ρ' reply' _ _ hreply => ?_⟩
  obtain ⟨rfl, hold⟩ := hreply
  cases hreply : (hsm.exec (.findObjects template) m).1 with
  | ok found => exact (follows_done found found _).mpr ⟨rfl, hold found hreply⟩
  | error e => exact (follows_stop _ _ _).mpr rfl

theorem follows_getAttributes (hpair : ρ handle handle') (types : List AttributeType) :
    Follows hsm base Same ρ (Session.getAttributes wrap handle types : TokenProgram K D ε _) m
      (Session.getAttributes wrap handle' types) := by
  refine ⟨_, _, rfl, .getAttributes types hpair, fun ρ' reply' _ _ hreply => ?_⟩
  obtain rfl : reply' = _ := hreply
  exact follows_orStop _

theorem follows_createObject (hoverlooked : Overlooked template) :
    Follows hsm base (fun ρ k k' => ρ k k' ∧ base ≤ k) ρ (Session.createObject wrap template : TokenProgram K D ε _) m
      (Session.createObject wrap template) :=
  ⟨_, _, rfl, .createObject template hoverlooked, fun _ _ _ _ hreply => follows_orStop_handle hreply⟩

theorem follows_deriveKey (mechanism : Mechanism) (hpair : ρ handle handle') (hoverlooked : Overlooked template) :
    Follows hsm base (fun ρ k k' => ρ k k' ∧ base ≤ k) ρ
      (Session.deriveKey wrap mechanism handle template : TokenProgram K D ε _) m
      (Session.deriveKey wrap mechanism handle' template) :=
  ⟨_, _, rfl, .deriveKey mechanism template hpair hoverlooked, fun _ _ _ _ hreply => follows_orStop_handle hreply⟩

theorem follows_tryDeriveKey (mechanism : Mechanism) (hpair : ρ handle handle') (hoverlooked : Overlooked template) :
    Follows hsm base (fun ρ reply reply' => ρ.SameHandle base reply reply') ρ
      (Session.tryDeriveKey mechanism handle template : TokenProgram K D ε _) m
      (Session.tryDeriveKey mechanism handle' template) :=
  ⟨_, _, rfl, .deriveKey mechanism template hpair hoverlooked, fun _ _ _ _ hreply =>
    (follows_done _ _ _).mpr hreply⟩

theorem follows_tryDestroyObject (hpair : ρ handle handle') (hown : base ≤ handle) :
    Follows hsm base Same ρ (Session.tryDestroyObject handle : TokenProgram K D ε Unit) m
      (Session.tryDestroyObject handle') :=
  ⟨_, _, rfl, .destroyObject hpair hown, fun _ _ _ _ _ => (follows_done _ _ _).mpr rfl⟩

theorem follows_sign (hpair : ρ handle handle') (digest : D) :
    Follows hsm base Same ρ (Session.sign wrap handle digest : TokenProgram K D ε _) m
      (Session.sign wrap handle' digest) := by
  refine ⟨_, _, rfl, .sign digest hpair, fun ρ' reply' _ _ hreply => ?_⟩
  obtain rfl : reply' = _ := hreply
  exact follows_orStop _

theorem follows_ofExcept (x : Except (Stop ε) α) :
    Follows hsm base Same ρ (Program.ofExcept x : TokenProgram K D ε α) m (Program.ofExcept x) := by
  cases x with
  | ok a => exact (follows_done a a m).mpr rfl
  | error e => exact (follows_stop _ _ m).mpr rfl

end

/-! ### Templates -/

theorem overlooked_seedSecretTemplate (seed : Bytes) : Overlooked (seedSecretTemplate seed) := by
  rintro template (⟨label, rfl⟩ | ⟨objectLabel, rfl⟩)
  · exact ⟨.objectClass .privateKey, by simp [keyQuery], by simp [seedSecretTemplate]⟩
  · exact ⟨.objectClass .data, by simp [recordQuery], by simp [seedSecretTemplate]⟩

theorem overlooked_childKeyTemplate : Overlooked childKeyTemplate := by
  rintro template (⟨label, rfl⟩ | ⟨objectLabel, rfl⟩)
  · exact ⟨.label (privLabel label), by simp [keyQuery], by simp [childKeyTemplate]⟩
  · exact ⟨.objectClass .data, by simp [recordQuery], by simp [childKeyTemplate]⟩

/-- A master is filed under a name nobody asks for. -/
theorem overlooked_masterKeyTemplate (label : String) : Overlooked (masterKeyTemplate (privLabel label)) := by
  rintro template (⟨label', rfl⟩ | ⟨objectLabel, rfl⟩)
  · exact ⟨.label (privLabel label'), by simp [keyQuery],
      by simpa [masterKeyTemplate] using privLabel_ne_masterLabel label label'⟩
  · exact ⟨.objectClass .data, by simp [recordQuery], by simp [masterKeyTemplate]⟩

/-! ### The standard recipe -/

namespace AttributeDerivation

variable (recipe : AttributeDerivation K D) (crates : Crates D) {handle handle' : ObjectHandle}

/-- The key at a path is new, if it is not the key the path starts from or if that one is new. -/
theorem follows_derivePath (path : DerivationPath) : ∀ {ρ : Pairing} {m : Machine K} {handle handle' : ObjectHandle},
    ρ.Proper base → ρ handle handle' →
      Follows hsm base (fun ρ k k' => ρ k k' ∧ (base ≤ handle ∨ path ≠ [] → base ≤ k)) ρ
        (recipe.derivePath handle path) m (recipe.derivePath handle' path) := by
  induction path with
  | nil =>
      intro ρ m handle handle' _ hpair
      exact (follows_done handle handle' m).mpr ⟨hpair, fun h => h.resolve_right fun hne => hne rfl⟩
  | cons child path ih =>
      intro ρ m handle handle' hproper hpair
      refine Follows.bind hproper (follows_deriveKey _ hpair overlooked_childKeyTemplate)
        fun ρ' k k' m' hproper' _ hk => ?_
      exact (ih hproper' hk.1).mono fun ρ'' k₁ k₁' h => ⟨h.1, fun _ => h.2 (Or.inl hk.2)⟩

theorem follows_readXpub (hproper : ρ.Proper base) (hpair : ρ handle handle') :
    Follows hsm base Same ρ (recipe.readXpub crates handle) m (recipe.readXpub crates handle') := by
  refine Follows.bind hproper (follows_getAttributes hpair _) fun ρ' a a' m' _ _ h => ?_
  obtain rfl := h
  exact follows_ofExcept _

theorem follows_masterFingerprint (hproper : ρ.Proper base) (hpair : ρ handle handle') :
    Follows hsm base Same ρ (masterFingerprint crates handle : TokenProgram K D _ _) m
      (masterFingerprint crates handle') := by
  refine Follows.bind hproper (follows_getAttributes hpair _) fun ρ' a a' m' _ _ h => ?_
  obtain rfl := h
  exact follows_ofExcept _

/-- The same master, which is new, behind the handles of either run. -/
def SameMaster (base : ObjectHandle) (ρ : Pairing) (master master' : MasterKeyHandle) : Prop :=
  master' = { master with keyHandle := master'.keyHandle } ∧ ρ master.keyHandle master'.keyHandle ∧
    base ≤ master.keyHandle

theorem follows_readMaster (hproper : ρ.Proper base) (hpair : ρ handle handle') (hnew : base ≤ handle) :
    Follows hsm base (SameMaster base) ρ (recipe.readMaster crates handle) m (recipe.readMaster crates handle') := by
  refine Follows.bind hproper (recipe.follows_readXpub crates hproper hpair) fun ρ₁ xpub xpub' m₁ hproper₁ hle₁ h => ?_
  obtain rfl := h
  refine Follows.bind hproper₁ (follows_masterFingerprint crates hproper₁ (hle₁ _ _ hpair))
    fun ρ₂ fingerprint fingerprint' m₂ _ hle₂ h => ?_
  obtain rfl := h
  exact (follows_done _ _ m₂).mpr ⟨rfl, hle₂ _ _ (hle₁ _ _ hpair), hnew⟩

theorem follows_deriveMasterKey (hproper : ρ.Proper base) (seed : Bytes) (label : String) :
    Follows hsm base (SameMaster base) ρ (recipe.deriveMasterKey crates seed (privLabel label)) m
      (recipe.deriveMasterKey crates seed (privLabel label)) := by
  unfold deriveMasterKey
  split
  · exact (follows_stop _ _ m).mpr rfl
  · refine Follows.bind hproper (follows_createObject (overlooked_seedSecretTemplate _))
      fun ρ₁ k k' m₁ hproper₁ _ hk => ?_
    refine Follows.bind hproper₁ (follows_tryDeriveKey _ hk.1 (overlooked_masterKeyTemplate label))
      fun ρ₂ result result' m₂ hproper₂ hle₂ hresult => ?_
    refine Follows.bind hproper₂ (follows_tryDestroyObject (hle₂ _ _ hk.1) hk.2) fun ρ₃ _ _ m₃ hproper₃ hle₃ _ => ?_
    have hmaster : ρ₃.SameHandle base result result' := by
      cases result with
      | ok handle =>
          cases result' with
          | ok handle' => exact ⟨hle₃ _ _ hresult.1, hresult.2⟩
          | error e => exact hresult.elim
      | error e => cases result' <;> exact hresult
    refine Follows.bind hproper₃ (follows_orStop_handle hmaster) fun ρ₄ handle handle' m₄ hproper₄ _ hpair => ?_
    exact recipe.follows_readMaster crates hproper₄ hpair.1 hpair.2

end AttributeDerivation

/-! ### Signers -/

/-- The same signer, with its key behind the handles of either run. -/
def Pkcs11Signer.Same (ρ : Pairing) (signer signer' : Pkcs11Signer K D) : Prop :=
  signer' = { signer with loaded := signer'.loaded } ∧ ρ signer.loaded.privateKey signer'.loaded.privateKey

theorem follows_findKeyByLabel (hproper : ρ.Proper base) (label : String) :
    Follows hsm base (fun ρ found found' => found' = found ∧ ∀ key ∈ found, ρ key.privateKey key.privateKey) ρ
      (findKeyByLabel label) m (findKeyByLabel label) := by
  refine Follows.bind hproper (follows_findObjects (Or.inl ⟨label, rfl⟩)) fun ρ' found found' m' _ _ h => ?_
  obtain ⟨rfl, hold⟩ := h
  cases found' with
  | nil => exact (follows_done _ _ m').mpr ⟨rfl, by simp⟩
  | cons handle rest =>
      cases rest with
      | nil => exact (follows_done _ _ m').mpr ⟨rfl, by simpa using hold⟩
      | cons other rest => exact (follows_stop _ _ m').mpr rfl

theorem follows_loadRecord {R : Type} {ρ : Pairing} (hproper : ρ.Proper base) (objectLabel : String) (absent : R)
    (fromSlice : Bytes → Except String R) :
    Follows hsm base Same ρ (loadRecord objectLabel absent fromSlice : TokenProgram K D _ _) m
      (loadRecord objectLabel absent fromSlice) := by
  refine Follows.bind hproper (follows_findObjects (Or.inr ⟨objectLabel, rfl⟩))
    fun ρ' found found' m' hproper' _ h => ?_
  obtain ⟨rfl, hold⟩ := h
  cases found' with
  | nil => exact (follows_done _ _ m').mpr rfl
  | cons handle rest =>
      refine Follows.bind hproper' (follows_getAttributes (hold handle List.mem_cons_self) _)
        fun ρ'' a a' m'' _ _ h => ?_
      obtain rfl := h
      exact follows_ofExcept _

namespace Pkcs11Signer

variable (recipe : AttributeDerivation K D) (crates : Crates D)

theorem follows_deriveFromSeed (hproper : ρ.Proper base) (label : String) (path : DerivationPath) (network : Network)
    (seed : Bytes) :
    Follows hsm base (fun ρ signer signer' => Pkcs11Signer.Same ρ signer signer' ∧ base ≤ signer.loaded.privateKey) ρ
      (deriveFromSeed label path network (recipe.toHsmBackend crates) seed) m
      (deriveFromSeed label path network (recipe.toHsmBackend crates) seed) := by
  refine Follows.bind hproper (.mapError _ (recipe.follows_deriveMasterKey crates hproper seed label))
    fun ρ₁ master master' m₁ hproper₁ _ h => ?_
  obtain ⟨hsame, hpair, hnew⟩ := h
  refine Follows.bind hproper₁ (.mapError _ (recipe.follows_derivePath path hproper₁ hpair))
    fun ρ₂ handle handle' m₂ hproper₂ _ h => ?_
  refine Follows.bind hproper₂ (.mapError _ (recipe.follows_readXpub crates hproper₂ h.1))
    fun ρ₃ xpub xpub' m₃ _ hle h' => ?_
  obtain rfl := h'
  rw [hsame]
  exact (follows_done _ _ m₃).mpr ⟨⟨rfl, hle _ _ h.1⟩, h.2 (Or.inl hnew)⟩

/-- A load finds the same key. -/
theorem follows_load (hproper : ρ.Proper base) (label : String) (path : DerivationPath) (network : Network) :
    Follows hsm base (fun ρ signer signer' => signer' = signer ∧ ρ signer.loaded.privateKey signer.loaded.privateKey)
      ρ (load label path network (recipe.toHsmBackend crates)) m
      (load label path network (recipe.toHsmBackend crates)) := by
  refine Follows.bind hproper (follows_findKeyByLabel hproper label) fun ρ₁ found found' m₁ hproper₁ _ h => ?_
  obtain ⟨rfl, hold⟩ := h
  cases found' with
  | none => exact (follows_stop _ _ m₁).mpr rfl
  | some loaded =>
      have hpair : ρ₁ loaded.privateKey loaded.privateKey := hold loaded rfl
      refine Follows.bind hproper₁ (.mapError _ (recipe.follows_readXpub crates hproper₁ hpair))
        fun ρ₂ xpub xpub' m₂ hproper₂ hle₂ h => ?_
      obtain rfl := h
      refine Follows.bind hproper₂
        (.mapError _ (AttributeDerivation.follows_masterFingerprint crates hproper₂ (hle₂ _ _ hpair)))
        fun ρ₃ fingerprint fingerprint' m₃ _ hle₃ h => ?_
      obtain rfl := h
      exact (follows_done _ _ m₃).mpr ⟨rfl, hle₃ _ _ (hle₂ _ _ hpair)⟩

end Pkcs11Signer

end EmvaultPkcs11
