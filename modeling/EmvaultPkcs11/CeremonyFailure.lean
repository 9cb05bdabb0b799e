import EmvaultPkcs11.IdealVendor

/-! What a key ceremony leaves on the token, object by object. The seed object is gone again before the result
of the master derivation is looked at. The master is persistent and nothing removes it, so a ceremony that
fails after it has derived the master, while reading the master back or deriving a child or reading the
xpub, leaves the master behind, and with it the children it had derived. -/

open Effect

namespace EmvaultPkcs11

variable {K D : Type}

/-! ### The ceremony -/

namespace AttributeDerivation

variable (recipe : AttributeDerivation K D) (crates : Crates D) (hsm : Hsm K D)

/-- The seeds a ceremony takes. -/
def SeedAccepted (seed : Bytes) : Prop := seed.isEmpty = true ∨ seed.length = 64

/-- The first two calls of a ceremony, which store the seed and derive the master, give the key `key`. -/
structure MakesMaster (seed : Bytes) (m : Machine K) (key : K) : Prop where
  accepted : SeedAccepted seed
  created : hsm.fault m.calls = none
  derived : hsm.fault (m.calls + 1) = none
  masterKey : recipe.masterKey hsm seed = .ok key

/-- The token once the ceremony has its master key: the seed object has come and gone. -/
def withMaster (seed : Bytes) (label : String) (key : K) (m : Machine K) : Machine K :=
  (((m.create (seedObject seed)).tick.create (masterObject label key)).tick.destroy m.nextHandle).tick

theorem objects_withMaster (seed : Bytes) (label : String) (key : K) (m : Machine K) :
    (withMaster seed label key m).objects = m.objects ++ [(m.nextHandle + 1, masterObject label key)] :=
  m.objects_destroy_create_create (seedObject seed) (masterObject label key)

/-- The xpub of an object, as it is read from the token. -/
def xpubOf (object : Object K) : Except HsmBackendError Xpub :=
  recipe.xpubOfAttributes crates ((hsm.attributesOf object).filter fun a => a.type ∈
    [.ecPoint, recipe.chainCodeAttribute, recipe.depthAttribute, recipe.parentFingerprintAttribute,
      recipe.childIndexAttribute])

/-- The fingerprint of an object, as it is read from the token. -/
def fingerprintOf (object : Object K) : Except HsmBackendError Fingerprint :=
  fingerprintOfAttributes crates ((hsm.attributesOf object).filter fun a => a.type ∈ [AttributeType.ecPoint])

/-- An xpub is read by one call. -/
theorem wp_readXpub_of_object {handle : ObjectHandle} {object : Object K} {m : Machine K}
    (hobject : m.object? handle = some object) :
    wp (Program.run hsm.exec (recipe.readXpub crates handle))
      (fun xpub m' => m' = m.tick ∧ recipe.xpubOf crates hsm object = .ok xpub)
      (fun _ m' => m' = m.tick ∧ (hsm.FaultFree → ∀ xpub, recipe.xpubOf crates hsm object ≠ .ok xpub)) m := by
  simp only [readXpub, Program.wp_run_bind, Session.wp_getAttributes, Program.wp_run_ofExcept, hobject,
    mapError_eq_ok]
  refine ⟨fun e he => ⟨trivial, fun hfree => by simp [hfree m.calls] at he⟩, fun _ => ⟨fun _ h => ⟨trivial, h⟩, ?_⟩⟩
  intro e he
  refine ⟨trivial, fun _ xpub hxpub => ?_⟩
  rw [xpubOf] at hxpub
  rw [hxpub] at he
  cases he

theorem wp_masterFingerprint_of_object {handle : ObjectHandle} {object : Object K} {m : Machine K}
    (hobject : m.object? handle = some object) :
    wp (Program.run hsm.exec (masterFingerprint crates handle))
      (fun fingerprint m' => m' = m.tick ∧ fingerprintOf crates hsm object = .ok fingerprint)
      (fun _ m' => m' = m.tick ∧
        (hsm.FaultFree → ∀ fingerprint, fingerprintOf crates hsm object ≠ .ok fingerprint)) m := by
  simp only [masterFingerprint, Program.wp_run_bind, Session.wp_getAttributes, Program.wp_run_ofExcept, hobject,
    mapError_eq_ok]
  refine ⟨fun e he => ⟨trivial, fun hfree => by simp [hfree m.calls] at he⟩, fun _ => ⟨fun _ h => ⟨trivial, h⟩, ?_⟩⟩
  intro e he
  refine ⟨trivial, fun _ fingerprint hfingerprint => ?_⟩
  rw [fingerprintOf] at hfingerprint
  rw [hfingerprint] at he
  cases he

/-- The master can be read back. -/
def MasterReadable (object : Object K) : Prop :=
  (∃ xpub, recipe.xpubOf crates hsm object = .ok xpub) ∧
    ∃ fingerprint, fingerprintOf crates hsm object = .ok fingerprint

theorem wp_readMaster_of_object {handle : ObjectHandle} {object : Object K} {m : Machine K}
    (hobject : m.object? handle = some object) :
    wp (Program.run hsm.exec (recipe.readMaster crates handle))
      (fun master m' => m.Ticked m' ∧ master.keyHandle = handle ∧ recipe.MasterReadable crates hsm object)
      (fun _ m' => m.Ticked m' ∧ (hsm.FaultFree → ¬recipe.MasterReadable crates hsm object)) m := by
  simp only [readMaster, Program.wp_run_bind]
  refine wp_mono (recipe.wp_readXpub_of_object crates hsm hobject) (fun xpub m₁ h₁ => ?_) (fun e m₁ h₁ => ?_)
  · obtain ⟨rfl, hxpub⟩ := h₁
    refine wp_mono (wp_masterFingerprint_of_object crates hsm ((m.object?_tick handle).trans hobject))
      (fun fingerprint m₂ h₂ => ?_) (fun e m₂ h₂ => ?_)
    · obtain ⟨rfl, hfingerprint⟩ := h₂
      exact ⟨.tick_tick m, rfl, ⟨xpub, hxpub⟩, fingerprint, hfingerprint⟩
    · obtain ⟨rfl, hnone⟩ := h₂
      refine ⟨.tick_tick m, fun hfree hreadable => ?_⟩
      obtain ⟨_, fingerprint, hfingerprint⟩ := hreadable
      exact hnone hfree fingerprint hfingerprint
  · obtain ⟨rfl, hnone⟩ := h₁
    refine ⟨.tick m, fun hfree hreadable => ?_⟩
    obtain ⟨⟨xpub, hxpub⟩, _⟩ := hreadable
    exact hnone hfree xpub hxpub

variable {recipe crates hsm}

/-- Storing the seed, deriving the master and destroying the seed, which is the third call: the program goes
on with the master on the token, or fails with nothing left. -/
theorem wp_makeMaster {α : Type} {seed : Bytes} (label : String) {m : Machine K} (haccepted : SeedAccepted seed)
    (hcleanup : hsm.fault (m.calls + 2) = none)
    (rest : Except CryptokiError ObjectHandle → TokenProgram K D HsmBackendError α) {Q : α → Machine K → Prop}
    {E : Stop HsmBackendError → Machine K → Prop}
    (hmade : ∀ key, recipe.MakesMaster hsm seed m key →
      wp (Program.run hsm.exec (rest (.ok (m.nextHandle + 1)))) Q E (withMaster seed label key m))
    (hrefused : ∀ e, (∀ key, ¬recipe.MakesMaster hsm seed m key) → E e m.tick)
    (hfailed : ∀ e m', (∀ key, ¬recipe.MakesMaster hsm seed m key) → m'.objects = m.objects →
      wp (Program.run hsm.exec (rest (.error e))) Q E m') :
    wp (Program.run hsm.exec (do
      let baseKey ← Session.createObject .pkcs11 (seedSecretTemplate (seedBuffer seed))
      let result ← Session.tryDeriveKey (.vendorDefined recipe.masterDeriveMechanism (seedBuffer seed)) baseKey
        (masterKeyTemplate label)
      Session.tryDestroyObject baseKey
      rest result)) Q E m := by
  simp only [Program.wp_run_bind, Session.wp_createObject]
  refine ⟨fun e he => hrefused _ fun key hmakes => ?_, fun hcreated => ?_⟩
  · rw [hmakes.created] at he
    cases he
  have hseed : (m.create (seedObject seed)).tick.object? m.nextHandle = some (seedObject seed) :=
    m.object?_create_self _
  have hgone (e : CryptokiError) (hnone : ∀ key, ¬recipe.MakesMaster hsm seed m key) :
      wp (Program.run hsm.exec (Session.tryDestroyObject m.nextHandle))
        (fun _ m' => wp (Program.run hsm.exec (rest (.error e))) Q E m') E
        (m.create (seedObject seed)).tick.tick := by
    have hlive : (m.create (seedObject seed)).tick.tick.object? m.nextHandle = some (seedObject seed) := hseed
    rw [Session.wp_tryDestroyObject_served hsm hcleanup hlive]
    exact hfailed e _ hnone (m.objects_destroy_create (seedObject seed))
  rw [Session.wp_tryDeriveKey_iff]
  refine ⟨fun e he => hgone e fun key hmakes => ?_, fun hderived => ?_⟩
  · have hfault := hmakes.derived.symm.trans he
    cases hfault
  rw [show (m.create ⟨seedSecretTemplate (seedBuffer seed), none⟩).tick.object? m.nextHandle =
    some (seedObject seed) from hseed]
  dsimp only
  cases hkey : hsm.derive (.vendorDefined recipe.masterDeriveMechanism (seedBuffer seed)) (seedObject seed) with
  | error e =>
      refine hgone e fun key hmakes => ?_
      have hmaster := hmakes.masterKey
      rw [masterKey, hkey] at hmaster
      cases hmaster
  | ok key =>
      have hlive : ((m.create (seedObject seed)).tick.create (masterObject label key)).tick.object?
          m.nextHandle = some (seedObject seed) :=
        Machine.object?_create_of_some _ _ hseed
      dsimp only
      apply (Session.wp_tryDestroyObject_served hsm hcleanup hlive _ _).mpr
      exact hmade key ⟨haccepted, hcreated, hderived, hkey⟩

/-- Deriving the master leaves nothing where there is no master, and the master where there is one, even if
it cannot be read back. -/
theorem wp_deriveMasterKey_exact (seed : Bytes) (label : String) {m : Machine K}
    (hcleanup : hsm.fault (m.calls + 2) = none) :
    wp (Program.run hsm.exec (recipe.deriveMasterKey crates seed label))
      (fun master m' => ∃ key, recipe.MakesMaster hsm seed m key ∧ (withMaster seed label key m).Ticked m' ∧
        m'.object? master.keyHandle = some (masterObject label key) ∧
        recipe.MasterReadable crates hsm (masterObject label key))
      (fun _ m' => ((∀ key, ¬recipe.MakesMaster hsm seed m key) ∧ m'.objects = m.objects) ∨
        ∃ key, recipe.MakesMaster hsm seed m key ∧ (withMaster seed label key m).Ticked m' ∧
          (hsm.FaultFree → ¬recipe.MasterReadable crates hsm (masterObject label key))) m := by
  unfold deriveMasterKey
  split
  case isTrue hrefused =>
      refine Or.inl ⟨fun key hmakes => ?_, rfl⟩
      rcases hmakes.accepted with hempty | hlength
      · simp [hempty] at hrefused
      · exact hrefused.2 hlength
  case isFalse hnot =>
  have haccepted : SeedAccepted seed := by
    by_cases hempty : seed.isEmpty = true
    · exact Or.inl hempty
    · right
      by_contra hlength
      exact hnot ⟨by simpa using hempty, hlength⟩
  refine wp_makeMaster label haccepted hcleanup _ (fun key hmakes => ?_) (fun e hnone => Or.inl ⟨hnone, rfl⟩)
    (fun e m' hnone hobjects => ?_)
  · have hmaster : (withMaster seed label key m).object? (m.nextHandle + 1) = some (masterObject label key) := by
      rw [Machine.object?_eq_some_iff, objects_withMaster]
      simp
    refine wp_mono (recipe.wp_readMaster_of_object crates hsm hmaster) (fun master m' h => ?_) (fun e m' h => ?_)
    · obtain ⟨hticked, hhandle, hreadable⟩ := h
      refine ⟨key, hmakes, hticked, ?_, hreadable⟩
      rw [hhandle]
      exact hticked.keeps.objects _ _ hmaster
    · exact Or.inr ⟨key, hmakes, h.1, h.2⟩
  · exact Or.inl ⟨hnone, hobjects⟩

variable (recipe crates hsm) in
/-- With its master key the ceremony comes to an end. -/
def Completes (label : String) (path : DerivationPath) (key : K) : Prop :=
  recipe.MasterReadable crates hsm (masterObject label key) ∧
    ∃ object, recipe.deriveObject hsm (masterObject label key) path = some object ∧
      ∃ xpub, recipe.xpubOf crates hsm object = .ok xpub

/-- A ceremony without a master leaves nothing. Every other one leaves the master and after it the children it
has derived, whether it succeeds or not. -/
theorem wp_deriveFromSeed_exact (label : String) (path : DerivationPath) (network : Network) (seed : Bytes)
    {m : Machine K} (hcleanup : hsm.fault (m.calls + 2) = none) :
    wp (Program.run hsm.exec
        (Pkcs11Signer.deriveFromSeed label path network (recipe.toHsmBackend crates) seed))
      (fun _ m' => ∃ key, recipe.MakesMaster hsm seed m key ∧
        Machine.Adds IsChild (withMaster seed (privLabel label) key m) m' ∧
        recipe.Completes crates hsm (privLabel label) path key)
      (fun _ m' => ((∀ key, ¬recipe.MakesMaster hsm seed m key) ∧ m'.objects = m.objects) ∨
        ∃ key, recipe.MakesMaster hsm seed m key ∧
          Machine.Adds IsChild (withMaster seed (privLabel label) key m) m' ∧
          (hsm.FaultFree → ¬recipe.Completes crates hsm (privLabel label) path key)) m := by
  simp only [Pkcs11Signer.deriveFromSeed, Pkcs11Signer.fromBackend, Program.wp_run_bind,
    Program.wp_run_mapError, toHsmBackend]
  refine wp_mono (wp_deriveMasterKey_exact seed (privLabel label) hcleanup) (fun master m₁ h₁ => ?_)
    (fun e m₁ h₁ => ?_)
  case refine_2 =>
      rcases h₁ with hnone | ⟨key, hmakes, hticked, hunreadable⟩
      · exact Or.inl hnone
      · exact Or.inr ⟨key, hmakes, hticked.adds, fun hfree hcompletes => hunreadable hfree hcompletes.1⟩
  obtain ⟨key, hmakes, hticked, hmaster, hreadable⟩ := h₁
  have hadds₁ : Machine.Adds IsChild (withMaster seed (privLabel label) key m) m₁ := hticked.adds
  refine wp_mono (recipe.wp_derivePath hsm path m₁ master.keyHandle _ hmaster) (fun handle m₂ h₂ => ?_)
    (fun e m₂ h₂ => ?_)
  case refine_2 =>
      refine Or.inr ⟨key, hmakes, hadds₁.trans h₂.1, fun hfree hcompletes => ?_⟩
      obtain ⟨_, object, hobject, _⟩ := hcompletes
      rw [h₂.2 hfree] at hobject
      cases hobject
  obtain ⟨hadds₂, object, hobject, hderived, _⟩ := h₂
  refine wp_mono (recipe.wp_readXpub_of_object crates hsm hobject) (fun xpub m₃ h₃ => ?_) (fun e m₃ h₃ => ?_)
  · obtain ⟨rfl, hxpub⟩ := h₃
    exact ⟨key, hmakes, (hadds₁.trans hadds₂).trans (.tick m₂), hreadable, object, hderived, xpub, hxpub⟩
  · obtain ⟨rfl, hnone⟩ := h₃
    refine Or.inr ⟨key, hmakes, (hadds₁.trans hadds₂).trans (.tick m₂), fun hfree hcompletes => ?_⟩
    obtain ⟨_, object', hobject', xpub, hxpub⟩ := hcompletes
    obtain rfl : object' = object := Option.some.inj (hobject'.symm.trans hderived)
    exact hnone hfree xpub hxpub

end AttributeDerivation

/-- A ceremony that fails leaves the token's objects as they were exactly if it has not derived a master: the
seed is neither empty nor 64 bytes long, or the token refuses the seed object or the master derivation. -/
theorem failed_ceremony_clean_iff (recipe : AttributeDerivation K D) (crates : Crates D) (hsm : Hsm K D)
    {label : String} {path : DerivationPath} {network : Network} {seed : Bytes} {m m' : Machine K}
    {e : Stop Pkcs11Error} (hcleanup : hsm.fault (m.calls + 2) = none)
    (hrun : (Program.run hsm.exec (Pkcs11Signer.deriveFromSeed label path network
      (recipe.toHsmBackend crates) seed)).run m = .error e m') :
    m'.objects = m.objects ↔ ∀ key, ¬recipe.MakesMaster hsm seed m key := by
  have hleft := wp_of_run_error
    (AttributeDerivation.wp_deriveFromSeed_exact label path network seed hcleanup) hrun
  rcases hleft with ⟨hnone, hobjects⟩ | ⟨key, hmakes, hadds, _⟩
  · exact iff_of_true hobjects hnone
  · refine iff_of_false (fun hobjects => ?_) (fun hnone => hnone key hmakes)
    obtain ⟨added, hadded, _⟩ := hadds.objects
    rw [AttributeDerivation.objects_withMaster, hobjects] at hadded
    have hlength := congrArg List.length hadded
    simp only [List.length_append, List.length_singleton] at hlength
    omega

namespace IdealVendor

/-- A token that refuses one call. -/
def tokenRefusing (call : Nat) : Hsm Key Digest :=
  hsm [7] (fun n => if n = call then some ⟨0x30⟩ else none) fun n => n

/-- The ceremony on such a token. -/
def refusedCeremony (call : Nat) : EStateM (Stop Pkcs11Error) (Machine Key) (Pkcs11Signer Key Digest) :=
  Program.run (tokenRefusing call).exec
    (Pkcs11Signer.deriveFromSeed "a" [.hardened 0] .bitcoin (recipe.toHsmBackend crates) [])

end IdealVendor

open IdealVendor in
/-- The token refuses the master derivation: nothing is left. -/
theorem refused_master_leaves_nothing :
    ∃ e m, (refusedCeremony 1).run .empty = .error e m ∧ m.objects = [] := by
  cases hrun : (refusedCeremony 1).run .empty with
  | ok signer m =>
      have hfails : completes ((refusedCeremony 1).run .empty) = false := by decide +kernel
      rw [hrun] at hfails
      cases hfails
  | error e m =>
      refine ⟨e, m, rfl, (failed_ceremony_clean_iff recipe crates (tokenRefusing 1) rfl hrun).mpr ?_⟩
      intro key hmakes
      have hderived := hmakes.derived
      cases hderived

open IdealVendor in
/-- The token refuses to have the master read back: the ceremony fails, and the master is still there in the
next session. -/
theorem refused_reading_leaves_master :
    (match (refusedCeremony 3).run .empty with
      | .ok _ _ => none
      | .error e m => some (e, m.closeSession.objects)) =
      some (.err (.hsmBackend (.pkcs11 ⟨0x30⟩)),
        [(1, AttributeDerivation.masterObject (privLabel "a") master)]) := by
  decide +kernel

end EmvaultPkcs11
