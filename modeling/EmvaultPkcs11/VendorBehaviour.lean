import EmvaultPkcs11.SigningRun

/-! Vendors whose programs do what the backend traits say and nothing else: a derived key is a new
object, a signature is a function of the object that makes it, and all that was on the token stays.
Such a vendor gives a `SigningContract`, and the blanket backend over a standard recipe is one. -/

open Effect

namespace EmvaultPkcs11

variable {K D : Type}

/-- What a vendor computes: the object at a path below an object, and the signatures an object
makes. `none` where the vendor cannot. -/
structure VendorFunctions (K D : Type) where
  derive : Object K → DerivationPath → Option (Object K)
  ecdsa : Object K → D → Option (Signature K)
  schnorr : Object K → String → DerivationPath → D → Option (Signature K)

/-- A signature is made with the key of the object the signing call was given. -/
structure VendorFunctions.UseHandle (functions : VendorFunctions K D) : Prop where
  ecdsa : ∀ object digest sig, functions.ecdsa object digest = some sig → object.key = some sig.madeWith
  schnorr : ∀ object label path digest sig,
    functions.schnorr object label path digest = some sig → object.key = some sig.madeWith

/-- A Schnorr signer leaves the token as it was, and what it returns is a function of the object, the
label, the path and the digest. It may fail for no other reason than a fault. -/
def TaprootSigner.Computes (hsm : Hsm K D)
    (schnorr : Object K → String → DerivationPath → D → Option (Signature K))
    (taproot : TaprootSigner K D) : Prop :=
  ∀ m handle object label path digest, m.object? handle = some object →
    wp (Program.run hsm.exec (taproot.signSchnorr handle label path digest))
      (fun sig m' => m.Keeps m' ∧ schnorr object label path digest = some sig)
      (fun _ m' => m.Keeps m' ∧ (hsm.FaultFree → schnorr object label path digest = none)) m

/-- An ECDSA signer, in the same way. -/
def SegwitSigner.Computes (hsm : Hsm K D) (ecdsa : Object K → D → Option (Signature K))
    (segwit : SegwitSigner K D) : Prop :=
  ∀ m handle object digest, m.object? handle = some object →
    wp (Program.run hsm.exec (segwit.signEcdsa handle digest))
      (fun sig m' => m.Keeps m' ∧ ecdsa object digest = some sig)
      (fun _ m' => m.Keeps m' ∧ (hsm.FaultFree → ecdsa object digest = none)) m

structure HsmBackend.Computes (hsm : Hsm K D) (functions : VendorFunctions K D)
    (backend : HsmBackend K D) : Prop where
  derivePath : ∀ path m handle object, path ≠ [] → m.object? handle = some object →
    wp (Program.run hsm.exec (backend.derivePath handle path))
      (fun handle' m' => m.Keeps m' ∧ m.nextHandle ≤ handle' ∧ ∃ object',
        m'.object? handle' = some object' ∧ .objectClass .data ∉ object'.attributes ∧
        functions.derive object path = some object')
      (fun _ m' => m.Keeps m' ∧ (hsm.FaultFree → functions.derive object path = none)) m
  segwit : ∀ segwit, backend.segwitSigner = some segwit → segwit.Computes hsm functions.ecdsa
  taproot : ∀ taproot, backend.taprootSigner = some taproot → taproot.Computes hsm functions.schnorr

namespace VendorFunctions

variable (functions : VendorFunctions K D) (backend : HsmBackend K D)

/-- The object that signs for a path below the federation object. -/
def derived (federation : Object K) (path : DerivationPath) : Option (Object K) :=
  if path = [] then some federation else functions.derive federation path

/-- What the vendor returns for a target. -/
def answer (label : String) (federation : Object K) (target : Target D) : Option (Signature K) :=
  (functions.derived federation target.relativePath).bind fun object =>
    match target.key with
    | .ecdsa _ _ => if backend.segwitSigner.isSome then functions.ecdsa object target.digest else none
    | .schnorr _ _ _ fullPath => functions.schnorr object label fullPath target.digest

theorem answer_ecdsa (label : String) {federation object : Object K} {target : Target D}
    {publicKey : BitcoinPublicKey} {sighashType : EcdsaSighashType}
    (hobject : functions.derived federation target.relativePath = some object)
    (hkey : target.key = .ecdsa publicKey sighashType) {segwit : SegwitSigner K D}
    (hsegwit : backend.segwitSigner = some segwit) :
    functions.answer backend label federation target = functions.ecdsa object target.digest := by
  simp [answer, hobject, hkey, hsegwit]

theorem answer_schnorr (label : String) {federation object : Object K} {target : Target D}
    {xonly : XOnlyPublicKey} {leafHash : TapLeafHash} {sighashType : TapSighashType}
    {fullPath : DerivationPath}
    (hobject : functions.derived federation target.relativePath = some object)
    (hkey : target.key = .schnorr xonly leafHash sighashType fullPath) :
    functions.answer backend label federation target =
      functions.schnorr object label fullPath target.digest := by
  simp [answer, hobject, hkey]

end VendorFunctions

/-- The contract of such a vendor. Between signatures the token has all it had in `m₀`. -/
def HsmBackend.Computes.contract {hsm : Hsm K D} {functions : VendorFunctions K D}
    {signer : Pkcs11Signer K D} (hcomputes : signer.backend.Computes hsm functions) {m₀ : Machine K}
    {federation : Object K} (hfederation : m₀.object? signer.loaded.privateKey = some federation) :
    SigningContract hsm signer where
  idle m := m₀.Keeps m
  holding path handle m := m₀.Keeps m ∧ ∃ object, m.object? handle = some object ∧
    functions.derived federation path = some object ∧
    (handle ≠ signer.loaded.privateKey →
      m₀.nextHandle ≤ handle ∧ .objectClass .data ∉ object.attributes)
  signed target sig := functions.answer signer.backend signer.label federation target = some sig
  refused target :=
    hsm.FaultFree → functions.answer signer.backend signer.label federation target = none
  calm := False
  idle_of_ticked hidle hticked := hidle.trans hticked.keeps
  idle_of_holding hholding := hholding.1
  holding_federation hidle := ⟨hidle, federation, hidle.objects _ _ hfederation,
    by simp [VendorFunctions.derived], fun hne => absurd rfl hne⟩
  derivePath path m hne hidle := by
    refine wp_mono (hcomputes.derivePath path m _ federation hne (hidle.objects _ _ hfederation))
      (fun handle m' h => ?_) (fun _ m' h => ⟨hidle.trans h.1, fun target htarget hfree => ?_, False.elim⟩)
    · obtain ⟨hkeeps, hfresh, object, hobject, hclass, hderive⟩ := h
      exact ⟨hidle.trans hkeeps, object, hobject, by simp [VendorFunctions.derived, hne, hderive],
        fun _ => ⟨hidle.nextHandle.trans hfresh, hclass⟩⟩
    · simp [VendorFunctions.answer, VendorFunctions.derived, htarget, hne, h.2 hfree]
  signEcdsa segwit hsegwit target publicKey sighashType hkey handle m hholding := by
    obtain ⟨hkeeps, object, hobject, hderived, hfresh⟩ := hholding
    have hanswer := functions.answer_ecdsa signer.backend signer.label hderived hkey hsegwit
    refine wp_mono (hcomputes.segwit segwit hsegwit m handle object target.digest hobject)
      (fun sig m' h => ⟨⟨hkeeps.trans h.1, object, h.1.objects _ _ hobject, hderived, hfresh⟩, ?_⟩)
      (fun _ m' h => ⟨⟨hkeeps.trans h.1, object, h.1.objects _ _ hobject, hderived, hfresh⟩,
        fun hfree => ?_, False.elim⟩)
    · rw [hanswer, h.2]
    · rw [hanswer, h.2 hfree]
  noSegwit hnone target publicKey sighashType hkey _ := by
    simp [VendorFunctions.answer, hkey, hnone]
  signSchnorr taproot htaproot target xonly leafHash sighashType fullPath hkey handle m hholding := by
    obtain ⟨hkeeps, object, hobject, hderived, hfresh⟩ := hholding
    have hanswer := functions.answer_schnorr signer.backend signer.label hderived hkey
    refine wp_mono
      (hcomputes.taproot taproot htaproot m handle object signer.label fullPath target.digest hobject)
      (fun sig m' h => ⟨⟨hkeeps.trans h.1, object, h.1.objects _ _ hobject, hderived, hfresh⟩, ?_⟩)
      (fun _ m' h => ⟨hkeeps.trans h.1, fun hfree => ?_, False.elim⟩)
    · rw [hanswer, h.2]
    · rw [hanswer, h.2 hfree]
  idle_tick hholding := hholding.1.trans (.tick _)
  idle_destroy hholding hne hobject := by
    obtain ⟨hkeeps, object, hobject', _, hfresh⟩ := hholding
    obtain ⟨hnew, hclass⟩ := hfresh hne
    refine (hkeeps.destroy hnew fun other hother => ?_).trans (.tick _)
    rw [hobject'] at hother
    rwa [← Option.some.inj hother]

/-! ### The blanket backend -/

namespace AttributeDerivation

variable (recipe : AttributeDerivation K D) (crates : Crates D) (hsm : Hsm K D)

/-- What the standard recipe derives: one object for each segment, from the segment's parent. -/
def deriveObject : Object K → DerivationPath → Option (Object K)
  | object, [] => some object
  | object, child :: path =>
      match hsm.derive (.vendorDefined recipe.childDeriveMechanism (recipe.childParameter child)) object with
      | .error _ => none
      | .ok key => deriveObject ⟨childKeyTemplate, some key⟩ path

/-- What the stock ECDSA signer returns. -/
def ecdsaObject (object : Object K) (digest : D) : Option (Signature K) :=
  object.key.bind fun key =>
    if (hsm.ecdsa key digest).length = 64 then
      (crates.fromCompact (hsm.ecdsa key digest)).toOption.map fun sig => ⟨crates.normalizeS sig, key⟩
    else none

def functions (schnorr : Object K → String → DerivationPath → D → Option (Signature K)) :
    VendorFunctions K D where
  derive := recipe.deriveObject hsm
  ecdsa := ecdsaObject crates hsm
  schnorr := schnorr

/-- Objects made by deriving a child. -/
def IsChild (object : Object K) : Prop := object.attributes = childKeyTemplate

theorem IsChild.not_data {object : Object K} (h : IsChild object) :
    .objectClass .data ∉ object.attributes := by
  rw [h]
  simp [childKeyTemplate]

/-- Deriving a path adds one object for each segment and leaves the rest of the token alone. -/
theorem wp_derivePath (path : DerivationPath) :
    ∀ m handle object, m.object? handle = some object →
    wp (Program.run hsm.exec (recipe.derivePath handle path))
      (fun handle' m' => Machine.Adds IsChild m m' ∧ ∃ object', m'.object? handle' = some object' ∧
        recipe.deriveObject hsm object path = some object' ∧
        ((path = [] ∧ handle' = handle) ∨ (m.nextHandle ≤ handle' ∧ IsChild object')))
      (fun _ m' => Machine.Adds IsChild m m' ∧
        (hsm.FaultFree → recipe.deriveObject hsm object path = none)) m := by
  induction path with
  | nil => exact fun m handle object hobject => ⟨.refl m, object, hobject, rfl, Or.inl ⟨rfl, rfl⟩⟩
  | cons child path ih =>
      intro m handle object hobject
      rw [derivePath, Program.wp_run_bind, deriveChildKey, Session.wp_deriveKey]
      refine ⟨fun e he => ⟨.tick m, fun hfree => by simp [hfree m.calls] at he⟩, fun _ => ?_⟩
      simp only [hobject, deriveObject]
      cases hderive : hsm.derive
          (.vendorDefined recipe.childDeriveMechanism (recipe.childParameter child)) object with
      | error e => exact ⟨.tick m, fun _ => rfl⟩
      | ok key =>
          have hchild : IsChild (⟨childKeyTemplate, some key⟩ : Object K) := rfl
          have hadds : Machine.Adds IsChild m (m.create ⟨childKeyTemplate, some key⟩).tick :=
            (Machine.Adds.create m hchild).trans (.tick _)
          refine wp_mono (ih _ m.nextHandle _ (m.object?_create_self ⟨childKeyTemplate, some key⟩))
            (fun handle' m' h => ?_) (fun _ m' h => ⟨hadds.trans h.1, h.2⟩)
          obtain ⟨hadds', object', hobject', hderived, hfresh⟩ := h
          refine ⟨hadds.trans hadds', object', hobject', hderived, Or.inr ?_⟩
          rcases hfresh with ⟨rfl, rfl⟩ | ⟨hle, htemplate⟩
          · cases hderived
            exact ⟨Nat.le_refl _, hchild⟩
          · exact ⟨hadds.nextHandle.trans hle, htemplate⟩

theorem pkcs11EcdsaSigner_computes :
    (pkcs11EcdsaSigner crates).Computes hsm (ecdsaObject crates hsm) := by
  intro m handle object digest hobject
  simp only [pkcs11EcdsaSigner, signWithLowS, Program.wp_run_mapError, Program.wp_run_bind,
    Session.wp_sign, hobject]
  refine ⟨fun e he => ⟨.tick m, fun hfree => by simp [hfree m.calls] at he⟩, fun _ => ?_⟩
  cases hkey : object.key with
  | none => exact ⟨.tick m, fun _ => by simp [ecdsaObject, hkey]⟩
  | some key =>
      dsimp only
      by_cases hlength : (hsm.ecdsa key digest).length = 64
      · simp only [hlength, ne_eq, not_true_eq_false, if_false]
        cases hcompact : crates.fromCompact (hsm.ecdsa key digest) with
        | error e =>
            exact ⟨.tick m, fun _ => by simp [ecdsaObject, hkey, hcompact, Except.toOption]⟩
        | ok sig =>
            exact ⟨.tick m, by simp [ecdsaObject, hkey, hlength, hcompact, Except.toOption]⟩
      · simp only [ne_eq, hlength, not_false_eq_true, if_true]
        exact ⟨.tick m, fun _ => by simp [ecdsaObject, hkey, hlength]⟩

/-- The blanket backend is a vendor that does what the traits say, if its Schnorr signer does. -/
theorem toHsmBackend_computes
    {schnorr : Object K → String → DerivationPath → D → Option (Signature K)}
    (hschnorr : ∀ taproot, recipe.taprootSigner = some taproot → taproot.Computes hsm schnorr) :
    (recipe.toHsmBackend crates).Computes hsm (recipe.functions crates hsm schnorr) where
  derivePath path m handle object hne hobject := by
    refine wp_mono (recipe.wp_derivePath hsm path m handle object hobject)
      (fun handle' m' h => ?_) (fun _ m' h => ⟨h.1.keeps fun _ => IsChild.not_data, h.2⟩)
    obtain ⟨hadds, object', hobject', hderived, hfresh⟩ := h
    rcases hfresh with ⟨hnil, _⟩ | ⟨hle, hchild⟩
    · exact absurd hnil hne
    · exact ⟨hadds.keeps fun _ => IsChild.not_data, hle, object', hobject', hchild.not_data, hderived⟩
  segwit segwit hsegwit := by
    obtain rfl := Option.some.inj hsegwit
    exact pkcs11EcdsaSigner_computes crates hsm
  taproot := hschnorr

/-- The stock signer uses the handle it is given. -/
theorem ecdsaObject_madeWith {object : Object K} {digest : D} {sig : Signature K}
    (h : ecdsaObject crates hsm object digest = some sig) : object.key = some sig.madeWith := by
  obtain ⟨key, hkey, h⟩ := Option.bind_eq_some_iff.mp h
  split at h
  · obtain ⟨bytes, _, rfl⟩ := Option.map_eq_some_iff.mp h
    exact hkey
  · cases h

end AttributeDerivation

end EmvaultPkcs11
