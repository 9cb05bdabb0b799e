import EmvaultPkcs11.LibraryKeyTree
import EmvaultPkcs11.VendorBehaviour

/-! The key ceremony over the blanket backend: which objects `derive_from_seed` puts on the token, and
which key the signer it returns signs with. -/

open Effect

namespace EmvaultPkcs11

variable {K D : Type}

namespace AttributeDerivation

variable (recipe : AttributeDerivation K D) (crates : Crates D) (hsm : Hsm K D)

/-- The object the seed is passed to the token in. -/
def seedObject (seed : Bytes) : Object K := ⟨seedSecretTemplate (seedBuffer seed), none⟩

/-- The object a master key is kept in. -/
def masterObject (label : String) (key : K) : Object K := ⟨masterKeyTemplate label, some key⟩

/-- The master key the token derives from a seed. -/
def masterKey (seed : Bytes) : Except CryptokiError K :=
  hsm.derive (.vendorDefined recipe.masterDeriveMechanism (seedBuffer seed)) (seedObject seed)

/-- The kinds of objects a ceremony adds: the seed, the master under `label`, and children. -/
def IsCeremonyObject (seed : Bytes) (label : String) (object : Object K) : Prop :=
  object = seedObject seed ∨ object.attributes = masterKeyTemplate label ∨ IsChild object

theorem IsCeremonyObject.not_data {seed : Bytes} {label : String} {object : Object K}
    (h : IsCeremonyObject seed label object) : .objectClass .data ∉ object.attributes := by
  rcases h with rfl | h | h
  · simp [seedObject, seedSecretTemplate]
  · simp [h, masterKeyTemplate]
  · exact h.not_data

/-- Reading an xpub changes nothing. -/
theorem wp_readXpub (p : Object K → Prop) (handle : ObjectHandle) (m : Machine K) :
    wp (Program.run hsm.exec (recipe.readXpub crates handle)) (fun _ m' => Machine.Adds p m m')
      (fun _ m' => Machine.Adds p m m') m := by
  simp only [readXpub, Program.wp_run_bind, Session.wp_getAttributes, Program.wp_run_ofExcept]
  refine ⟨fun _ _ => .tick m, fun _ => ?_⟩
  cases m.object? handle with
  | none => exact .tick m
  | some object => exact ⟨fun _ _ => .tick m, fun _ _ => .tick m⟩

theorem wp_masterFingerprint (p : Object K → Prop) (handle : ObjectHandle) (m : Machine K) :
    wp (Program.run hsm.exec (masterFingerprint crates handle)) (fun _ m' => Machine.Adds p m m')
      (fun _ m' => Machine.Adds p m m') m := by
  simp only [masterFingerprint, Program.wp_run_bind, Session.wp_getAttributes, Program.wp_run_ofExcept]
  refine ⟨fun _ _ => .tick m, fun _ => ?_⟩
  cases m.object? handle with
  | none => exact .tick m
  | some object => exact ⟨fun _ _ => .tick m, fun _ _ => .tick m⟩

theorem wp_tryDeriveKey {ε : Type} (mechanism : Mechanism) (base : ObjectHandle)
    (template : List Attribute) (object : Object K)
    (Q : Except CryptokiError ObjectHandle → Machine K → Prop) (E : Stop ε → Machine K → Prop)
    (m : Machine K) (hobject : m.object? base = some object)
    (herror : ∀ e, Q (.error e) m.tick)
    (hok : ∀ key, hsm.derive mechanism object = .ok key →
      Q (.ok m.nextHandle) (m.create ⟨template, some key⟩).tick) :
    wp (Program.run hsm.exec (Session.tryDeriveKey mechanism base template : TokenProgram K D ε _))
      Q E m := by
  rw [Session.wp_tryDeriveKey_iff, hobject]
  refine ⟨fun e _ => herror e, fun _ => ?_⟩
  dsimp only
  cases hderive : hsm.derive mechanism object with
  | error e => exact herror e
  | ok key => exact hok key hderive

/-- Reading the master back changes nothing. -/
theorem wp_readMaster (p : Object K → Prop) (handle : ObjectHandle) (m : Machine K) :
    wp (Program.run hsm.exec (recipe.readMaster crates handle))
      (fun master m' => master.keyHandle = handle ∧ Machine.Adds p m m')
      (fun _ m' => Machine.Adds p m m') m := by
  simp only [readMaster, Program.wp_run_bind]
  refine wp_mono (recipe.wp_readXpub crates hsm p handle m) (fun xpub m₁ h₁ => ?_) (fun _ m₁ h₁ => h₁)
  exact wp_mono (wp_masterFingerprint crates hsm p handle m₁) (fun _ m₂ h₂ => ⟨rfl, h₁.trans h₂⟩)
    (fun _ m₂ h₂ => h₁.trans h₂)

/-- The master key object the ceremony starts from. -/
theorem wp_deriveMasterKey (seed : Bytes) (label : String) (m : Machine K) :
    wp (Program.run hsm.exec (recipe.deriveMasterKey crates seed label))
      (fun master m' => Machine.Adds (IsCeremonyObject seed label) m m' ∧
        ∃ key, recipe.masterKey hsm seed = .ok key ∧
          m'.object? master.keyHandle = some (masterObject label key))
      (fun _ m' => Machine.Adds (IsCeremonyObject seed label) m m') m := by
  unfold deriveMasterKey
  split
  case isTrue => exact .refl m
  case isFalse =>
  simp only [Program.wp_run_bind, Session.wp_createObject]
  refine ⟨fun _ _ => .tick m, fun _ => ?_⟩
  have hseed : Machine.Adds (IsCeremonyObject seed label) m (m.create (seedObject seed)).tick :=
    (Machine.Adds.create m (Or.inl rfl)).trans (.tick _)
  refine wp_tryDeriveKey hsm _ _ _ (seedObject seed) _ _ _ (m.object?_create_self _)
    (fun e => ?_) (fun key hkey => ?_)
  · refine Session.wp_tryDestroyObject hsm _ _ _ _ ?_ (fun _ _ => ?_)
    · exact (hseed.trans (.tick _)).trans (.tick _)
    · exact ((hseed.trans (.tick _)).destroy (Nat.le_refl _)).trans (.tick _)
  · have hkind : IsCeremonyObject seed label (masterObject label key) := Or.inr (Or.inl rfl)
    have hmaster : Machine.Adds (IsCeremonyObject seed label) m
        ((m.create (seedObject seed)).tick.create (masterObject label key)).tick :=
      hseed.trans ((Machine.Adds.create _ hkind).trans (.tick _))
    have hobject := (m.create (seedObject seed)).tick.object?_create_self (masterObject label key)
    have hread {m' : Machine K} (hadds : Machine.Adds (IsCeremonyObject seed label) m m')
        (hheld : m'.object? (m.nextHandle + 1) = some (masterObject label key)) :=
      wp_mono (recipe.wp_readMaster crates hsm (IsCeremonyObject seed label) (m.nextHandle + 1) m')
        (fun master m'' h => (⟨hadds.trans h.2, key, hkey, h.1 ▸
          (h.2.keeps fun _ => IsCeremonyObject.not_data).objects _ _ hheld⟩ :
            Machine.Adds (IsCeremonyObject seed label) m m'' ∧
            ∃ key, recipe.masterKey hsm seed = .ok key ∧
              m''.object? master.keyHandle = some (masterObject label key)))
        (fun _ m'' h => hadds.trans h)
    refine Session.wp_tryDestroyObject hsm _ _ _ _ ?_ (fun _ _ => ?_)
    · exact hread (hmaster.trans (.tick _)) hobject
    · apply hread ((hmaster.destroy (Nat.le_refl _)).trans (.tick _))
      exact Machine.object?_destroy_of_some _ hobject (Nat.succ_ne_self _)

/-- A ceremony that succeeds: the signer's federation handle is the key at the derivation path below
the master, and the objects it added are the seed, the master and children. -/
theorem wp_deriveFromSeed (label : String) (path : DerivationPath) (network : Network) (seed : Bytes)
    (m : Machine K) :
    wp (Program.run hsm.exec
        (Pkcs11Signer.deriveFromSeed label path network (recipe.toHsmBackend crates) seed))
      (fun signer m' => Machine.Adds (IsCeremonyObject seed (privLabel label)) m m' ∧
        signer.label = label ∧ signer.derivationPath = path ∧ signer.network = network ∧
        signer.backend = recipe.toHsmBackend crates ∧
        ∃ key, recipe.masterKey hsm seed = .ok key ∧
        ∃ object, m'.object? signer.loaded.privateKey = some object ∧
          recipe.deriveObject hsm (masterObject (privLabel label) key) path = some object)
      (fun _ m' => Machine.Adds (IsCeremonyObject seed (privLabel label)) m m') m := by
  simp only [Pkcs11Signer.deriveFromSeed, Pkcs11Signer.fromBackend, Program.wp_run_bind,
    Program.wp_run_mapError, toHsmBackend]
  refine wp_mono (recipe.wp_deriveMasterKey crates hsm seed (privLabel label) m)
    (fun master m₁ h₁ => ?_) (fun _ m₁ h₁ => h₁)
  obtain ⟨hadds₁, key, hkey, hheld⟩ := h₁
  have hchild {m m' : Machine K} (h : Machine.Adds IsChild m m') :
      Machine.Adds (IsCeremonyObject seed (privLabel label)) m m' :=
    h.mono fun _ hchild => Or.inr (Or.inr hchild)
  refine wp_mono (recipe.wp_derivePath hsm path m₁ master.keyHandle _ hheld) (fun handle m₂ h₂ => ?_)
    (fun _ m₂ h₂ => hadds₁.trans (hchild h₂.1))
  obtain ⟨hadds₂, object, hobject, hderived, _⟩ := h₂
  refine wp_mono (recipe.wp_readXpub crates hsm IsChild handle m₂) (fun xpub m₃ h₃ => ?_)
    (fun _ m₃ h₃ => hadds₁.trans (hchild (hadds₂.trans h₃)))
  refine ⟨hadds₁.trans (hchild (hadds₂.trans h₃)), rfl, rfl, rfl, rfl, key, hkey, object, ?_, hderived⟩
  exact (h₃.keeps fun _ => IsChild.not_data).objects _ _ hobject

/-! ### BIP-32 -/

/-- The token's child derivation is BIP-32: the key it derives is the child of the key it derives
from. -/
def DerivesChildren (child : K → ChildNumber → K) : Prop :=
  ∀ (object : Object K) key c key', object.key = some key →
    hsm.derive (.vendorDefined recipe.childDeriveMechanism (recipe.childParameter c)) object = .ok key' →
    key' = child key c

variable {recipe hsm} {child : K → ChildNumber → K}

/-- Then the object at a path holds the key at that path. -/
theorem DerivesChildren.deriveObject (hbip32 : recipe.DerivesChildren hsm child) (path : DerivationPath) :
    ∀ {object object' : Object K} {key : K}, object.key = some key →
      recipe.deriveObject hsm object path = some object' →
      object'.key = some (KeyTree.descend child key path) := by
  induction path with
  | nil =>
      intro object object' key hkey h
      cases h
      exact hkey
  | cons c path ih =>
      intro object object' key hkey h
      unfold AttributeDerivation.deriveObject at h
      split at h
      · cases h
      · next key' hderive =>
          rw [KeyTree.descend_cons, ← hbip32 object key c key' hkey hderive]
          exact ih rfl h

end AttributeDerivation

end EmvaultPkcs11
