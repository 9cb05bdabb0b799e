import EmvaultPkcs11.IdealVendor
import EmvaultPkcs11.SigningOutcome
import EmvaultPkcs11.SigningTargets

/-! Which private key a signature is made with. The signing paths pick a key-origin entry by
fingerprint, drop as many segments of its path as the federation path has and derive the rest below the
federation key, without looking at the segments they drop. So the signature under the entry's public
key is made with that key's private key exactly when the entry's path extends the federation path; a
sibling with the same fingerprint gets a signature by a key that is not its own. -/

open Effect KeyTree

namespace EmvaultPkcs11

variable {K D X : Type}

namespace Insertion

/-- The private key a signature was made with. -/
def madeWith : Insertion K → K
  | .partialSig _ signature => signature.signature.madeWith
  | .tapScriptSig _ _ signature => signature.signature.madeWith

/-- The signature is filed under the public key of `key`. -/
def FiledUnder (publicKey : K → PublicKey) (xOnly : K → XOnlyPublicKey) (key : K) : Insertion K → Prop
  | .partialSig pk _ => publicKey key = pk.inner
  | .tapScriptSig xonly _ _ => xOnly key = xonly

/-- The signature was made with the private key of the public key it is filed under. -/
def RightKey (publicKey : K → PublicKey) (xOnly : K → XOnlyPublicKey) (insertion : Insertion K) : Prop :=
  insertion.FiledUnder publicKey xOnly insertion.madeWith

end Insertion

/-- An entry with the fingerprint names the public key at its path: `keyAt` is the key at a path below
the master with that fingerprint. -/
def Psbt.Truthful (publicKey : K → PublicKey) (xOnly : K → XOnlyPublicKey) (fingerprint : Fingerprint)
    (keyAt : DerivationPath → K) (psbt : Psbt K) : Prop :=
  ∀ inputIdx (insertion : Insertion K) path, psbt.keyOrigin inputIdx insertion.entryKey = some (fingerprint, path) →
    insertion.FiledUnder publicKey xOnly (keyAt path)

def Pset.Truthful (publicKey : K → PublicKey) (xOnly : K → XOnlyPublicKey) (fingerprint : Fingerprint)
    (keyAt : DerivationPath → K) (pset : Pset K) : Prop :=
  ∀ inputIdx (insertion : Insertion K) path, pset.keyOrigin inputIdx insertion.entryKey = some (fingerprint, path) →
    insertion.FiledUnder publicKey xOnly (keyAt path)

/-! ### The entry behind a signature -/

namespace Pkcs11Signer

variable {signer : Pkcs11Signer K D} {crates : Crates D} {elements : ElementsCrate K D X}

theorem keyOrigin_insertion {psbt : Psbt K} {target : Target D}
    (h : .ok target ∈ signer.agenda crates psbt) (sig : Signature K) :
    ∃ path, psbt.keyOrigin target.inputIdx (target.insertion crates sig).entryKey =
        some (signer.fingerprint, path) ∧
      target.relativePath = path.drop signer.derivationPath.length := by
  obtain ⟨path, horigin, hrelative⟩ := keyOrigin_of_mem_agenda h
  refine ⟨path, ?_, hrelative⟩
  rw [Target.entryKey_insertion, horigin]

theorem keyOrigin_psetInsertion (crates : Crates D) {pset : Pset K} {target : Target D}
    (h : .ok target ∈ signer.psetAgenda elements pset) (sig : Signature K) :
    ∃ path, pset.keyOrigin target.inputIdx (target.insertion crates sig).entryKey =
        some (signer.fingerprint, path) ∧
      target.relativePath = path.drop signer.derivationPath.length := by
  obtain ⟨path, horigin, hrelative⟩ := keyOrigin_of_mem_psetAgenda h
  refine ⟨path, ?_, hrelative⟩
  rw [Target.entryKey_insertion, horigin]

end Pkcs11Signer

/-! ### The key behind a signature -/

theorem Target.madeWith_insertion (crates : Crates D) (target : Target D) (sig : Signature K) :
    (target.insertion crates sig).madeWith = sig.madeWith := by
  unfold Target.insertion
  cases target.key <;> rfl

/-- What a vendor that uses the handle it is given returns for a target is made with the key of the
object at the target's path. -/
theorem VendorFunctions.UseHandle.answer {functions : VendorFunctions K D}
    (huse : functions.UseHandle) {backend : HsmBackend K D} {label : String} {federation : Object K}
    {target : Target D} {sig : Signature K}
    (h : functions.answer backend label federation target = some sig) :
    ∃ object, functions.derived federation target.relativePath = some object ∧
      object.key = some sig.madeWith := by
  obtain ⟨object, hobject, h⟩ := Option.bind_eq_some_iff.mp h
  refine ⟨object, hobject, ?_⟩
  split at h
  · split at h
    · exact huse.ecdsa _ _ _ h
    · cases h
  · exact huse.schnorr _ _ _ _ _ h

/-- A signature under the public key at a path is the right one exactly when the path extends the base
path, if the path was cut to the length of the base path and followed from the key there. -/
theorem Insertion.rightKey_iff {publicKey : K → PublicKey} {xOnly : K → XOnlyPublicKey}
    {child : K → ChildNumber → K} {master : K} (hpublicKey : SeparatedBy publicKey child master)
    (hxOnly : SeparatedBy xOnly child master) {insertion : Insertion K} {base path : DerivationPath}
    (hmade : insertion.madeWith = descend child (descend child master base) (path.drop base.length))
    (hfiled : insertion.FiledUnder publicKey xOnly (descend child master path)) :
    (insertion.RightKey publicKey xOnly ↔ base <+: path) ∧
      (insertion.madeWith = descend child master path ↔ base <+: path) := by
  unfold RightKey
  rw [hmade]
  refine ⟨?_, descend_drop_eq_iff hpublicKey base path⟩
  cases insertion with
  | partialSig pk signature =>
      simp only [FiledUnder] at hfiled ⊢
      rw [← hfiled, view_descend_drop_eq_iff hpublicKey]
  | tapScriptSig xonly leafHash signature =>
      simp only [FiledUnder] at hfiled ⊢
      rw [← hfiled, view_descend_drop_eq_iff hxOnly]

/-! ### Signers made by a key ceremony -/

section

variable {recipe : AttributeDerivation K D} {crates : Crates D} {hsm : Hsm K D}
  {schnorr : Object K → String → DerivationPath → D → Option (Signature K)}
  {child : K → ChildNumber → K} {publicKey : K → PublicKey} {xOnly : K → XOnlyPublicKey}

theorem AttributeDerivation.useHandle
    (huses : ∀ object label path digest sig, schnorr object label path digest = some sig →
      object.key = some sig.madeWith) :
    (recipe.functions crates hsm schnorr).UseHandle where
  ecdsa _ _ _ h := AttributeDerivation.ecdsaObject_madeWith crates hsm h
  schnorr := huses

/-- The key behind what the blanket backend returns for a target is the key at the target's path below
the federation key. -/
theorem AttributeDerivation.madeWith_of_answer (hderives : recipe.DerivesChildren hsm child)
    (huses : ∀ object label path digest sig, schnorr object label path digest = some sig →
      object.key = some sig.madeWith)
    {backend : HsmBackend K D} {label : String} {federation : Object K} {key : K}
    (hkey : federation.key = some key) {target : Target D} {sig : Signature K}
    (h : (recipe.functions crates hsm schnorr).answer backend label federation target = some sig) :
    sig.madeWith = descend child key target.relativePath := by
  obtain ⟨object, hobject, hmade⟩ := (AttributeDerivation.useHandle huses).answer h
  have hderived : recipe.deriveObject hsm federation target.relativePath = some object := by
    unfold VendorFunctions.derived at hobject
    split at hobject
    next hnil => rw [hnil]; exact hobject
    next => exact hobject
  have hdescend := hderives.deriveObject target.relativePath hkey hderived
  exact Option.some.inj (hmade.symm.trans hdescend)

/-- For a signer made by `derive_from_seed` over the blanket backend whose federation key is still on the
token, and a PSBT or PSET with truthful origins: each signature is filed under a key with an origin
entry of this signer, and is made with that key's private key, the key at the entry's path, exactly
when the entry's path extends the federation path. -/
theorem signature_rightKey_iff (hderives : recipe.DerivesChildren hsm child)
    (hcomputes : ∀ taproot, recipe.taprootSigner = some taproot → taproot.Computes hsm schnorr)
    (huses : ∀ object label path digest sig, schnorr object label path digest = some sig →
      object.key = some sig.madeWith)
    {label : String} {path : DerivationPath} {network : Network} {seed : Bytes} {m m₁ : Machine K}
    {signer : Pkcs11Signer K D} {master : K}
    (hrun : (Program.run hsm.exec (Pkcs11Signer.deriveFromSeed label path network
      (recipe.toHsmBackend crates) seed)).run m = .ok signer m₁)
    (hmaster : recipe.masterKey hsm seed = .ok master)
    (hpublicKey : SeparatedBy publicKey child master) (hxOnly : SeparatedBy xOnly child master)
    (serde : Serde) (elements : ElementsCrate K D X) :
    (∀ s : SignState K (Psbt K),
      s.machine.object? signer.loaded.privateKey = m₁.object? signer.loaded.privateKey →
      s.transaction.Truthful publicKey xOnly signer.fingerprint (descend child master) →
      ∀ w ∈ writtenBy (signer.signTransaction crates hsm serde) s,
        ∃ entryPath,
          s.transaction.keyOrigin w.inputIdx w.insertion.entryKey = some (signer.fingerprint, entryPath) ∧
          (w.insertion.RightKey publicKey xOnly ↔ signer.derivationPath <+: entryPath) ∧
          (w.insertion.madeWith = descend child master entryPath ↔
            signer.derivationPath <+: entryPath)) ∧
    (∀ s : SignState K (Pset K),
      s.machine.object? signer.loaded.privateKey = m₁.object? signer.loaded.privateKey →
      s.transaction.Truthful publicKey xOnly signer.fingerprint (descend child master) →
      ∀ w ∈ writtenBy (signer.signPset crates elements hsm serde) s,
        ∃ entryPath,
          s.transaction.keyOrigin w.inputIdx w.insertion.entryKey = some (signer.fingerprint, entryPath) ∧
          (w.insertion.RightKey publicKey xOnly ↔ signer.derivationPath <+: entryPath) ∧
          (w.insertion.madeWith = descend child master entryPath ↔
            signer.derivationPath <+: entryPath)) := by
  obtain ⟨_, _, hpath, _, hbackend, key, hkey, federation, hfederation, hderived⟩ :=
    wp_of_run_ok (recipe.wp_deriveFromSeed crates hsm label path network seed m) hrun
  obtain rfl : key = master := Except.ok.inj (hkey.symm.trans hmaster)
  have hfederationKey : federation.key = some (descend child key signer.derivationPath) := by
    rw [hpath]
    exact hderives.deriveObject path rfl hderived
  have hvendor : signer.backend.Computes hsm (recipe.functions crates hsm schnorr) := by
    rw [hbackend]
    exact recipe.toHsmBackend_computes crates hsm hcomputes
  have hsigned {machine : Machine K} (hheld : machine.object? signer.loaded.privateKey = some federation)
      {target : Target D} {w : Written K} {entryPath : DerivationPath}
      (hanswers : Answers crates (hvendor.contract hheld).signed target w)
      (hrelative : target.relativePath = entryPath.drop signer.derivationPath.length) :
      w.insertion.madeWith = descend child (descend child key signer.derivationPath)
        (entryPath.drop signer.derivationPath.length) := by
    obtain ⟨_, sig, hsig, hinsertion⟩ := hanswers
    rw [hinsertion, Target.madeWith_insertion, ← hrelative]
    exact AttributeDerivation.madeWith_of_answer hderives huses hfederationKey hsig
  refine ⟨fun s hlive htruthful w hw => ?_, fun s hlive htruthful w hw => ?_⟩
  · have hheld := hlive.trans hfederation
    obtain ⟨target, htarget, hanswers⟩ := ((hvendor.contract hheld).signTransaction_wrotePart crates serde s
      (.refl s.machine)).exists_target hw
    have hidx := hanswers.1
    obtain ⟨sig, _, hinsertion⟩ := hanswers.2
    obtain ⟨entryPath, horigin, hrelative⟩ := Pkcs11Signer.keyOrigin_insertion htarget sig
    rw [← hidx, ← hinsertion] at horigin
    have hmade := hsigned hheld hanswers hrelative
    exact ⟨entryPath, horigin, Insertion.rightKey_iff hpublicKey hxOnly hmade (htruthful _ _ _ horigin)⟩
  · have hheld := hlive.trans hfederation
    obtain ⟨target, htarget, hanswers⟩ := ((hvendor.contract hheld).signPset_wrotePart crates serde elements s
      (.refl s.machine)).exists_target hw
    have hidx := hanswers.1
    obtain ⟨sig, _, hinsertion⟩ := hanswers.2
    obtain ⟨entryPath, horigin, hrelative⟩ :=
      Pkcs11Signer.keyOrigin_psetInsertion crates htarget sig
    rw [← hidx, ← hinsertion] at horigin
    have hmade := hsigned hheld hanswers hrelative
    exact ⟨entryPath, horigin, Insertion.rightKey_iff hpublicKey hxOnly hmade (htruthful _ _ _ horigin)⟩

end

namespace IdealVendor

theorem psbtOf_keyOrigin (path : DerivationPath) (sighashType : Option UInt32) (outputs : List TxOut) :
    (psbtOf [wshInput path sighashType] outputs).keyOrigin 0
      (.partialSig (.new (publicKey ⟨[7], path⟩))) = some (fingerprint, path) := by
  simp [Psbt.keyOrigin, psbtOf, wshInput, BitcoinPublicKey.new]

/-- A PSBT with an entry for the key at a path is truthful. -/
theorem psbtOf_truthful (path : DerivationPath) (sighashType : Option UInt32) (outputs : List TxOut) :
    (psbtOf [wshInput path sighashType] outputs).Truthful publicKey publicKey fingerprint
      (descend child master) := by
  intro inputIdx insertion entryPath h
  cases insertion with
  | tapScriptSig xonly leafHash signature =>
      cases inputIdx <;> simp [Insertion.entryKey, Psbt.keyOrigin, psbtOf, wshInput] at h
  | partialSig pk signature =>
      cases inputIdx with
      | succ inputIdx => simp [Insertion.entryKey, Psbt.keyOrigin, psbtOf] at h
      | zero =>
          simp only [Insertion.entryKey, Psbt.keyOrigin, psbtOf, wshInput, List.getElem?_cons_zero, Option.bind_some,
            Std.ExtTreeMap.getElem?_insert] at h
          split at h
          next heq =>
            obtain rfl : path = entryPath := by simpa using h
            rw [Insertion.FiledUnder, ← Std.LawfulEqOrd.eq_of_compare heq, descend_child]
            rfl
          next => simp at h

end IdealVendor

open IdealVendor in
/-- A signer for `0'` signs an entry for its child `0'/3` with the child's key. -/
theorem child_signed_with_rightKey :
    ∃ w ∈ writtenBy ((signer [.hardened 0]).signTransaction crates token serde)
        ⟨machine [.hardened 0], false, psbtOf [wshInput [.hardened 0, .normal 3] none] [], []⟩,
      w.insertion.RightKey publicKey publicKey := by
  have hwritten : writtenBy ((signer [.hardened 0]).signTransaction crates token serde)
      ⟨machine [.hardened 0], false, psbtOf [wshInput [.hardened 0, .normal 3] none] [], []⟩ =
        [⟨0, .partialSig (.new (publicKey ⟨[7], [.hardened 0, .normal 3]⟩))
          ⟨⟨signatureBytes, ⟨[7], [.hardened 0, .normal 3]⟩⟩, .all⟩, 11⟩] := rfl
  have hmem := List.mem_singleton_self (⟨0, .partialSig (.new (publicKey ⟨[7], [.hardened 0, .normal 3]⟩))
    ⟨⟨signatureBytes, ⟨[7], [.hardened 0, .normal 3]⟩⟩, .all⟩, 11⟩ : Written Key)
  rw [← hwritten] at hmem
  refine ⟨_, hmem, ?_⟩
  obtain ⟨entryPath, horigin, hright, _⟩ := (signature_rightKey_iff (derivesChildren _ _ _)
    (fun taproot h => Option.some.inj h ▸ taprootSigner_computes _ _ _) schnorr_madeWith
    (show (ceremony [.hardened 0]).run .empty = .ok (signer [.hardened 0]) (machine [.hardened 0]) from rfl)
    (show recipe.masterKey token [] = .ok master from rfl) (publicKey_separated _) (publicKey_separated _)
    serde elements).1 ⟨machine [.hardened 0], false, psbtOf [wshInput [.hardened 0, .normal 3] none] [], []⟩
    rfl (psbtOf_truthful _ _ _) _ hmem
  obtain rfl := (Prod.mk.inj (Option.some.inj ((psbtOf_keyOrigin _ _ _).symm.trans horigin))).2
  exact hright.mpr ⟨[.normal 3], rfl⟩

open IdealVendor in
/-- A signer for `0'` that is handed an entry for its sibling `1'`, under the same master, files a
signature by its own key under the sibling's public key. -/
theorem sibling_signed_with_federation_key :
    (ceremony [.hardened 0]).run .empty = .ok (signer [.hardened 0]) (machine [.hardened 0]) ∧
    (psbtOf [wshInput [.hardened 1] none] []).Truthful publicKey publicKey fingerprint
      (descend child master) ∧
    ∃ w ∈ writtenBy ((signer [.hardened 0]).signTransaction crates token serde)
        ⟨machine [.hardened 0], false, psbtOf [wshInput [.hardened 1] none] [], []⟩,
      ¬w.insertion.RightKey publicKey publicKey := by
  refine ⟨rfl, psbtOf_truthful _ _ _, ⟨0, .partialSig (.new (publicKey ⟨[7], [.hardened 1]⟩))
    ⟨⟨signatureBytes, ⟨[7], [.hardened 0]⟩⟩, .all⟩, 9⟩, ?_, ?_⟩
  · have hwritten : writtenBy ((signer [.hardened 0]).signTransaction crates token serde)
        ⟨machine [.hardened 0], false, psbtOf [wshInput [.hardened 1] none] [], []⟩ =
          [⟨0, .partialSig (.new (publicKey ⟨[7], [.hardened 1]⟩))
            ⟨⟨signatureBytes, ⟨[7], [.hardened 0]⟩⟩, .all⟩, 9⟩] := rfl
    rw [hwritten]
    exact List.mem_singleton.mpr rfl
  · simp only [Insertion.RightKey, Insertion.FiledUnder, Insertion.madeWith]
    decide

end EmvaultPkcs11
