import EmvaultPkcs11.DescriptorKeys
import EmvaultPkcs11.LibraryEcdsa
import EmvaultPkcs11.Secp256k1
import EmvaultPkcs11.SighashReuse

/-! What a verifier makes of the signatures. A token's ECDSA signature is good under the public key of the key that
made it, and may be high; the signer parses it, normalizes it twice and files it. What it files under a wallet's
public key is low and good for the digest of the very input it is filed in. -/

open Effect KeyTree

namespace EmvaultPkcs11

variable {K D X G : Type}

namespace Secp256k1

/-- The order of the group. -/
def n : Nat := 2 ^ 256 - 0x14551231950B75FC4402DA1732FC9BEBF

/-- The first number of a compact signature. -/
def rOf (bytes : Bytes) : Nat := fromBe (bytes.take 32)

/-- The second one. -/
def sOf (bytes : Bytes) : Nat := fromBe (bytes.drop 32)

/-- Two numbers below the order, of 32 bytes each. -/
structure Compact (bytes : Bytes) : Prop where
  length : bytes.length = 64
  r_lt : rOf bytes < n
  s_lt : sOf bytes < n

end Secp256k1

open Secp256k1

/-- What the `secp256k1` crate does with compact signatures. -/
structure Crates.HandlesCompact (crates : Crates D) : Prop where
  fromCompact : ∀ bytes sig, crates.fromCompact bytes = .ok sig → sig = bytes ∧ Compact bytes
  normalizeS : ∀ bytes, Compact bytes →
    crates.normalizeS bytes = bytes.take 32 ++ toBe 32 (Ecdsa.low n (sOf bytes))

/-- A verifier of both kinds of signatures. Public keys stand for points and digests for scalars. -/
structure Verifier (D G : Type) [AddCommGroup G] [Module (ZMod n) G] where
  scheme : Ecdsa.Scheme (ZMod n) G
  point : PublicKey → G
  scalar : D → ZMod n
  schnorr : XOnlyPublicKey → D → Bytes → Prop

section

variable [AddCommGroup G] [Module (ZMod n) G]

/-- The ECDSA signature is good for the digest under the public key. -/
def Verifier.Ecdsa (verifier : Verifier D G) (publicKey : PublicKey) (digest : D) (bytes : Bytes) : Prop :=
  verifier.scheme.Verifies (verifier.point publicKey) (verifier.scalar digest) (rOf bytes) (sOf bytes)

/-- A signature is accepted under the key it is filed under. An ECDSA signature must be low. -/
def Verifier.Accepts (verifier : Verifier D G) (digest : D) : Insertion K → Prop
  | .partialSig publicKey signature =>
      Compact signature.signature.bytes ∧ sOf signature.signature.bytes ≤ n / 2 ∧
        verifier.Ecdsa publicKey.inner digest signature.signature.bytes
  | .tapScriptSig xonly _ signature => verifier.schnorr xonly digest signature.signature.bytes

end

/-! ### The digest of an input -/

/-- The digest of a PSET input under the sighash type of a signature for it, if it has one. -/
def Pset.digestOf (elements : ElementsCrate K D X) (pset : Pset K) (inputIdx : Nat) : Insertion K → Option D
  | .partialSig _ signature => do
      let tx ← (elements.extractTx pset).toOption
      let input ← pset.inputs[inputIdx]?
      let script ← input.witnessScript
      let utxo ← input.witnessUtxo
      return elements.segwitv0Sighash tx inputIdx script utxo.value signature.sighashType
  | .tapScriptSig _ _ _ => none

/-- The digest of an input of the transaction of a call. -/
def SignerCall.digestOf (crates : Crates D) (elements : ElementsCrate K D X) (inputIdx : Nat)
    (insertion : Insertion K) : SignerCall K → Option D
  | .signTransaction psbt => psbt.digestOf crates inputIdx insertion
  | .signPset pset => pset.digestOf elements inputIdx insertion
  | _ => none

section

variable {signer : Pkcs11Signer K D} {crates : Crates D} {elements : ElementsCrate K D X}

/-- A target of a PSBT has the digest of its input. -/
theorem Pkcs11Signer.digestOf_of_mem_agenda {psbt : Psbt K} {target : Target D}
    (h : .ok target ∈ signer.agenda crates psbt) (sig : Signature K) :
    psbt.digestOf crates target.inputIdx (target.insertion crates sig) = some target.digest := by
  obtain ⟨inputIdx, input, hinput, htaproot | hwsh⟩ := Pkcs11Signer.mem_agenda h
  · obtain ⟨xonly, leaves, path, leafHash, prevouts, sighashType, message, _, _, hprevouts, hmessage, rfl⟩ :=
      Pkcs11Signer.mem_taprootAgenda htaproot.2
    simp only [Target.insertion, Psbt.digestOf, hprevouts, hmessage, Except.toOption, Option.bind_eq_bind,
      Option.bind_some]
    rfl
  · obtain ⟨_, request, hrequest, rfl⟩ := hwsh
    obtain ⟨pk, path, sighashType, script, utxo, message, _, _, hscript, hutxo, hmessage, rfl⟩ :=
      Pkcs11Signer.wshRequest_eq_some hrequest
    simp only [EcdsaRequest.target, Target.insertion, Psbt.digestOf, hinput, hscript, hutxo, hmessage,
      Except.toOption, Option.bind_eq_bind, Option.bind_some]
    rfl

/-- So has a target of a PSET. -/
theorem Pkcs11Signer.digestOf_of_mem_psetAgenda (crates : Crates D) {pset : Pset K} {target : Target D}
    (h : .ok target ∈ signer.psetAgenda elements pset) (sig : Signature K) :
    pset.digestOf elements target.inputIdx (target.insertion crates sig) = some target.digest := by
  obtain ⟨tx, inputIdx, input, request, htx, hinput, hrequest, rfl⟩ := Pkcs11Signer.mem_psetAgenda h
  unfold Pkcs11Signer.psetRequest at hrequest
  split at hrequest
  · cases hrequest
  next pk path _ =>
    obtain ⟨relative, _, hrequest⟩ := bind_eq_ok.mp hrequest
    obtain ⟨script, hscript, hrequest⟩ := bind_eq_ok.mp hrequest
    obtain ⟨utxo, hutxo, hrequest⟩ := bind_eq_ok.mp hrequest
    obtain rfl := Option.some.inj (Except.ok.inj hrequest)
    have hscript' : input.witnessScript = some script := by
      unfold Pkcs11Signer.orElements at hscript
      split at hscript <;> simp_all
    have hutxo' : input.witnessUtxo = some utxo := by
      unfold Pkcs11Signer.orElements at hutxo
      split at hutxo <;> simp_all
    simp only [EcdsaRequest.target, Target.insertion, Pset.digestOf, htx, hinput, hscript', hutxo',
      Except.toOption, Option.bind_eq_bind, Option.bind_some]
    rfl

theorem SignerCall.digestOf_of_asks {call : SignerCall K} {target : Target D}
    (h : call.Asks signer crates elements target) (sig : Signature K) :
    call.digestOf crates elements target.inputIdx (target.insertion crates sig) = some target.digest := by
  cases call with
  | policy => cases h
  | setPolicy policy => cases h
  | healthCheck => cases h
  | signTransaction psbt => exact Pkcs11Signer.digestOf_of_mem_agenda h sig
  | signPset pset => exact Pkcs11Signer.digestOf_of_mem_psetAgenda crates h sig

end

/-! ### Normalizing -/

section

variable {crates : Crates D} (hcrates : crates.HandlesCompact) {bytes : Bytes}
include hcrates

/-- Normalizing keeps the first number and makes the second one low. -/
theorem Crates.HandlesCompact.normalized (hbytes : Compact bytes) :
    Compact (crates.normalizeS bytes) ∧ rOf (crates.normalizeS bytes) = rOf bytes ∧
      sOf (crates.normalizeS bytes) = Ecdsa.low n (sOf bytes) := by
  have htake : (bytes.take 32).length = 32 := by
    rw [List.length_take, hbytes.length]
    rfl
  have hlow : Ecdsa.low n (sOf bytes) < n := Ecdsa.low_lt hbytes.s_lt
  have hr : rOf (crates.normalizeS bytes) = rOf bytes := by
    rw [hcrates.normalizeS bytes hbytes, rOf, List.take_left' htake, rOf]
  have hs : sOf (crates.normalizeS bytes) = Ecdsa.low n (sOf bytes) := by
    rw [hcrates.normalizeS bytes hbytes, sOf, List.drop_left' htake]
    exact fromBe_toBe 32 _ (hlow.trans (by decide))
  refine ⟨⟨?_, hr ▸ hbytes.r_lt, hs ▸ hlow⟩, hr, hs⟩
  rw [hcrates.normalizeS bytes hbytes, List.length_append, htake, length_toBe]

/-- Normalizing a second time changes nothing a verifier reads. -/
theorem Crates.HandlesCompact.normalized_twice (hbytes : Compact bytes) :
    Compact (crates.normalizeS (crates.normalizeS bytes)) ∧
      rOf (crates.normalizeS (crates.normalizeS bytes)) = rOf bytes ∧
      sOf (crates.normalizeS (crates.normalizeS bytes)) = Ecdsa.low n (sOf bytes) := by
  obtain ⟨honce, hr, hs⟩ := hcrates.normalized hbytes
  obtain ⟨htwice, hr', hs'⟩ := hcrates.normalized honce
  refine ⟨htwice, hr'.trans hr, ?_⟩
  rw [hs', hs]
  exact Ecdsa.low_of_le (Ecdsa.low_le hbytes.s_lt)

variable [AddCommGroup G] [Module (ZMod n) G]

/-- What is filed of a token's signature is accepted if the token's signature is good. -/
theorem Verifier.accepts_normalized {verifier : Verifier D G} {publicKey : BitcoinPublicKey} {digest : D}
    (hbytes : Compact bytes) (h : verifier.Ecdsa publicKey.inner digest bytes) (madeWith : K)
    (sighashType : EcdsaSighashType) :
    verifier.Accepts digest (.partialSig publicKey
      ⟨⟨crates.normalizeS (crates.normalizeS bytes), madeWith⟩, sighashType⟩) := by
  obtain ⟨hcompact, hr, hs⟩ := hcrates.normalized_twice hbytes
  refine ⟨hcompact, ?_, ?_⟩
  · exact hs ▸ Ecdsa.low_le hbytes.s_lt
  · unfold Verifier.Ecdsa
    rw [hr, hs]
    exact Ecdsa.Scheme.Verifies.low hbytes.s_lt h

end

/-! ### Signatures -/

section

variable {recipe : AttributeDerivation K D} {crates : Crates D} {hsm : Hsm K D} {elements : ElementsCrate K D X}
  {schnorr : Object K → String → DerivationPath → D → Option (Signature K)} {child : K → ChildNumber → K}
  {publicOf : K → Xpub} {step : Xpub → ChildNumber → Option Xpub} {xOnlyOf : PublicKey → XOnlyPublicKey}
  {signer : Pkcs11Signer K D} {d : DescriptorXKey}
  [AddCommGroup G] [Module (ZMod n) G] {verifier : Verifier D G}

/-- What the stock ECDSA signer returns is a parsed signature of the token, normalized once. -/
theorem AttributeDerivation.ecdsaObject_eq_some (hcrates : crates.HandlesCompact) {object : Object K} {digest : D}
    {sig : Signature K} (h : AttributeDerivation.ecdsaObject crates hsm object digest = some sig) :
    ∃ key, Compact (hsm.ecdsa key digest) ∧ sig = ⟨crates.normalizeS (hsm.ecdsa key digest), key⟩ := by
  obtain ⟨key, _, h⟩ := Option.bind_eq_some_iff.mp h
  split at h
  · obtain ⟨bytes, hbytes, rfl⟩ := Option.map_eq_some_iff.mp h
    cases hcompact : crates.fromCompact (hsm.ecdsa key digest) with
    | error e =>
        rw [hcompact] at hbytes
        cases hbytes
    | ok parsed =>
        rw [hcompact] at hbytes
        obtain rfl := Option.some.inj hbytes
        obtain ⟨rfl, hwell⟩ := hcrates.fromCompact _ _ hcompact
        exact ⟨key, hwell, rfl⟩
  · cases h

/-- The blanket backend's answer to a target, filed under the public key of the key that made it, is accepted for
the target's digest. -/
theorem accepts_of_answer (hcrates : crates.HandlesCompact)
    (hecdsa : ∀ key digest, Compact (hsm.ecdsa key digest) →
      verifier.Ecdsa (publicOf key).publicKey digest (hsm.ecdsa key digest))
    (hschnorr : ∀ object label path digest sig, schnorr object label path digest = some sig →
      verifier.schnorr (xOnlyOf (publicOf sig.madeWith).publicKey) digest sig.bytes)
    {backend : HsmBackend K D} {label : String} {federation : Object K} {target : Target D} {sig : Signature K}
    (hanswer : (recipe.functions crates hsm schnorr).answer backend label federation target = some sig)
    (hright : (target.insertion crates sig).RightKey (fun key => (publicOf key).publicKey)
      fun key => xOnlyOf (publicOf key).publicKey) :
    verifier.Accepts target.digest (target.insertion crates sig) := by
  obtain ⟨object, _, hanswer⟩ := Option.bind_eq_some_iff.mp hanswer
  unfold Insertion.RightKey at hright
  rw [Target.madeWith_insertion] at hright
  unfold Target.insertion at hright ⊢
  cases hkey : target.key with
  | ecdsa publicKey sighashType =>
      simp only [hkey, Insertion.FiledUnder] at hanswer hright ⊢
      split at hanswer
      · obtain ⟨key, hcompact, rfl⟩ := AttributeDerivation.ecdsaObject_eq_some hcrates hanswer
        apply Verifier.accepts_normalized hcrates hcompact
        rw [← hright]
        exact hecdsa key target.digest hcompact
      · cases hanswer
  | schnorr xonly leafHash sighashType fullPath =>
      simp only [hkey, Insertion.FiledUnder] at hanswer hright ⊢
      have hverifies := hschnorr object label fullPath target.digest sig hanswer
      rwa [hright] at hverifies

/-- With a wallet's transactions, for a signer that has come out of a ceremony or has been loaded, over the blanket
backend, and after any calls on it: every signature a call puts into its transaction is accepted, under the key it is
filed under and for the digest of its input under its sighash type, if the token's own signatures are good under the
public keys of the keys that make them, low or not. -/
theorem wallet_signatures_accepted (hbip32 : recipe.SpeaksBip32 crates hsm schnorr child publicOf step)
    (hcrates : crates.HandlesCompact)
    (hecdsa : ∀ key digest, Compact (hsm.ecdsa key digest) →
      verifier.Ecdsa (publicOf key).publicKey digest (hsm.ecdsa key digest))
    (hschnorr : ∀ object label path digest sig, schnorr object label path digest = some sig →
      verifier.schnorr (xOnlyOf (publicOf sig.madeWith).publicKey) digest sig.bytes)
    {m m' : Machine K} (hsound : m.KeysSound) (hmakes : recipe.Makes crates hsm m signer m')
    (hpublished : signer.Publishes d) (elements : ElementsCrate K D X) (serde : Serde) (slot : Slot)
    (before : List (SignerCall K)) {call : SignerCall K} (hwallet : call.MadeBy step xOnlyOf d) :
    let s := (SharedState.serveAll signer crates elements hsm serde slot ⟨m', false⟩ before).2
    ∀ w ∈ s.writes signer crates elements hsm serde call,
      ∃ digest, call.digestOf crates elements w.inputIdx w.insertion = some digest ∧
        verifier.Accepts digest w.insertion := by
  intro s w hw
  obtain ⟨⟨_, hright⟩, federation, target, sig, hasks, hidx, hanswer, hinsertion⟩ :=
    wallet_keys_answer hbip32 hsound hmakes hpublished elements serde slot before hwallet hw
  rw [hinsertion] at hright ⊢
  rw [hidx]
  refine ⟨target.digest, SignerCall.digestOf_of_asks hasks sig, ?_⟩
  exact accepts_of_answer hcrates hecdsa hschnorr hanswer hright

end

/-! ### A token that signs -/

namespace IdealVendor

instance : Fact (1 < n) := ⟨by decide⟩

/-- A group of scalars, where a point is its own logarithm, and its abscissa is its square. -/
def squares : Ecdsa.Scheme (ZMod n) (ZMod n) where
  base := 1
  abscissa point := if point = 0 then none else some (point * point)
  abscissa_neg point := by simp only [neg_eq_zero, neg_mul_neg]

/-- The number a digest stands for: the amount that is spent. -/
def amountOf : Digest → Nat
  | .bitcoin (.segwitV0 message) => message.value.toNat
  | _ => 0

def verifier : Verifier Digest (ZMod n) where
  scheme := squares
  point publicKey := (publicKey : ZMod n)
  scalar digest := (amountOf digest : ZMod n)
  schnorr _ _ _ := False

/-- The second number of a signature with the nonce `-1`, the first one being `1`. -/
def secondNumber (key : Key) (digest : Digest) : Nat := n - (amountOf digest + publicKey key) % n

/-- A token makes such a signature where its second number has an inverse. -/
def ecdsaBytes (key : Key) (digest : Digest) : Bytes :=
  if (secondNumber key digest).Coprime n then toBe 32 1 ++ toBe 32 (secondNumber key digest) else []

def ecdsaToken : Hsm Key Digest := { token with ecdsa := ecdsaBytes }

def ecdsaCrates : Crates Digest :=
  { crates with
    fromCompact := fun bytes =>
      if bytes.length = 64 ∧ rOf bytes < n ∧ sOf bytes < n then .ok bytes else .error "malformed signature"
    normalizeS := fun bytes => bytes.take 32 ++ toBe 32 (Ecdsa.low n (sOf bytes)) }

def ecdsaRecipe : AttributeDerivation Key Digest := { recipe with taprootSigner := none }

def ecdsaSigner (path : DerivationPath) : Pkcs11Signer Key Digest :=
  .fromLoaded "a" (signer path).loaded (signer path).xpub fingerprint path .bitcoin
    (ecdsaRecipe.toHsmBackend ecdsaCrates)

theorem handlesCompact : ecdsaCrates.HandlesCompact where
  normalizeS _ _ := rfl
  fromCompact bytes sig h := by
    simp only [ecdsaCrates] at h
    split at h
    next hwell => exact ⟨(Except.ok.inj h).symm, hwell.1, hwell.2.1, hwell.2.2⟩
    next => cases h

theorem ecdsaBytes_good (key : Key) (digest : Digest) (hcompact : Compact (ecdsaBytes key digest)) :
    verifier.Ecdsa (publicKey key) digest (ecdsaBytes key digest) := by
  unfold ecdsaBytes at hcompact ⊢
  by_cases hcoprime : (secondNumber key digest).Coprime n
  · have hle : (amountOf digest + publicKey key) % n ≤ n := (Nat.mod_lt _ (by decide)).le
    have hnumber : secondNumber key digest < 256 ^ 32 := (Nat.sub_le _ _).trans_lt (by decide)
    have hr : rOf (toBe 32 1 ++ toBe 32 (secondNumber key digest)) = 1 := by
      rw [rOf, List.take_left' (length_toBe 32 1)]
      exact fromBe_toBe 32 1 (by decide)
    have hs : sOf (toBe 32 1 ++ toBe 32 (secondNumber key digest)) = secondNumber key digest := by
      rw [sOf, List.drop_left' (length_toBe 32 1)]
      exact fromBe_toBe 32 _ hnumber
    have hcast : (secondNumber key digest : ZMod n) = -((amountOf digest : ZMod n) + publicKey key) := by
      rw [secondNumber, Nat.cast_sub hle, ZMod.natCast_self, ZMod.natCast_mod, Nat.cast_add, zero_sub]
    rw [if_pos hcoprime, Verifier.Ecdsa, hr, hs, Nat.cast_one]
    have habscissa : squares.abscissa ((-1 : ZMod n) • squares.base) = some 1 := by simp [squares]
    have hgood : squares.Verifies ((publicKey key : ZMod n) • squares.base) (amountOf digest : ZMod n) 1
        (secondNumber key digest) := by
      refine Ecdsa.Scheme.verifies_of_nonce one_ne_zero habscissa ?_
        (ZMod.coe_mul_inv_eq_one (secondNumber key digest) hcoprime)
      rw [hcast, neg_mul_neg, one_mul, one_mul]
    rwa [show (publicKey key : ZMod n) • squares.base = (publicKey key : ZMod n) from mul_one _] at hgood
  · rw [if_neg hcoprime] at hcompact
    cases hcompact.length

theorem ecdsa_speaksBip32 : ecdsaRecipe.SpeaksBip32 ecdsaCrates ecdsaToken (fun _ _ _ _ => none) child publicOf
    publicStep where
  derives object key c key' hkey h := derivesChildren [7] (fun _ => none) (fun n => n) object key c key' hkey h
  computes _ h := by cases h
  uses _ _ _ _ _ h := by cases h
  reports object key xpub hkey h := reports object key xpub hkey h
  shadows := shadows
  network := publicStep_patch

/-- The signatures of a call that asks for one under the wallet's key at index 3. -/
def ecdsaWrites : List (Written Key) :=
  (⟨machine [.hardened 0], false⟩ : SharedState Key).writes (ecdsaSigner [.hardened 0]) ecdsaCrates elements
    ecdsaToken serde walletCall

end IdealVendor

open IdealVendor in
/-- The signature of the call is high when the token makes it, and low when it is filed. -/
theorem high_signature_accepted :
    ecdsaWrites.length = 1 ∧ ∀ w ∈ ecdsaWrites, ∃ digest,
      walletCall.digestOf ecdsaCrates elements w.inputIdx w.insertion = some digest ∧
        n / 2 < secondNumber w.insertion.madeWith digest ∧ verifier.Accepts digest w.insertion := by
  have hhigh : ecdsaWrites.all (fun w => (walletCall.digestOf ecdsaCrates elements w.inputIdx w.insertion).all
      fun digest => n / 2 < secondNumber w.insertion.madeWith digest) = true := by decide +kernel
  refine ⟨by decide +kernel, fun w hw => ?_⟩
  have hmade : ecdsaRecipe.Makes ecdsaCrates ecdsaToken .empty (ecdsaSigner [.hardened 0]) (machine [.hardened 0]) :=
    .ceremony "a" [.hardened 0] .bitcoin [] rfl
  have hsound : (Machine.empty : Machine Key).KeysSound := fun _ _ h => by cases h
  obtain ⟨digest, hdigest, haccepts⟩ := wallet_signatures_accepted ecdsa_speaksBip32 handlesCompact ecdsaBytes_good
    (fun _ _ _ _ _ h => by cases h) hsound hmade (.patched .regtest _ rfl) elements serde
    ⟨3, .ok "vault", .ok (), fun _ => .ok (), 0⟩ [] (madeBy_wshInput [.hardened 0] 3 rfl (by decide +kernel)) w hw
  have hw' := List.all_eq_true.mp hhigh w hw
  rw [show walletCall.digestOf ecdsaCrates elements w.inputIdx w.insertion = some digest from hdigest] at hw'
  exact ⟨digest, hdigest, by simpa using hw', haccepts⟩

end EmvaultPkcs11
