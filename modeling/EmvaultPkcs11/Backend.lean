import EmvaultPkcs11.KeyOps
import EmvaultPkcs11.Psbt

/-! The vendor layer (backend/mod.rs, ecdsa.rs). `HsmBackend` is the contract the signer is written
against: a record of token programs, any of which a vendor may supply. `AttributeDerivation` is the
standard recipe, and `AttributeDerivation.toHsmBackend` the blanket implementation that turns a
recipe into a backend. -/

namespace EmvaultPkcs11

inductive NetworkKind where
  | main | test
  deriving DecidableEq

structure Xpub where
  network : NetworkKind
  depth : UInt8
  parentFingerprint : Fingerprint
  childNumber : ChildNumber
  publicKey : PublicKey
  chainCode : Bytes
  deriving DecidableEq

structure MasterKeyHandle where
  keyHandle : ObjectHandle
  xpub : Xpub
  fingerprint : Fingerprint
  deriving DecidableEq

/-- ECDSA over a P2WSH sighash. -/
structure SegwitSigner (K D : Type) where
  signEcdsa : ObjectHandle → D → TokenProgram K D HsmBackendError (Signature K)

/-- BIP-340 Schnorr over a taproot sighash. The label and the full path are for transports that
cannot name a key by its handle. -/
structure TaprootSigner (K D : Type) where
  signSchnorr : ObjectHandle → String → DerivationPath → D →
    TokenProgram K D HsmBackendError (Signature K)

structure HsmBackend (K D : Type) where
  backendName : String
  deriveMasterKey : Bytes → String → TokenProgram K D HsmBackendError MasterKeyHandle
  derivePath : ObjectHandle → DerivationPath → TokenProgram K D HsmBackendError ObjectHandle
  readXpub : ObjectHandle → TokenProgram K D HsmBackendError Xpub
  masterFingerprint : ObjectHandle → TokenProgram K D HsmBackendError Fingerprint
  segwitSigner : Option (SegwitSigner K D)
  taprootSigner : Option (TaprootSigner K D)

variable {K D : Type}

/-! ### ECDSA -/

/-- `ecdsa::sign_with_low_s`. -/
def signWithLowS (crates : Crates D) (privateKey : ObjectHandle) (sighash : D) :
    TokenProgram K D Pkcs11Error (Signature K) := do
  let raw ← Session.sign .pkcs11 privateKey sighash
  if raw.bytes.length ≠ 64 then
    throw (.err (.backend s!"PKCS#11 ECDSA returned {raw.bytes.length} bytes, expected 64 (r || s)"))
  else
    match crates.fromCompact raw.bytes with
    | .error e => throw (.err (.secp256k1 e))
    | .ok sig => pure ⟨crates.normalizeS sig, raw.madeWith⟩

/-- `ECDSA_SIGNER`, the stock signer of every token backend. -/
def pkcs11EcdsaSigner (crates : Crates D) : SegwitSigner K D where
  signEcdsa key sighash :=
    (signWithLowS crates key sighash).mapError
      (Effect.Stop.map fun e => .signing (e.toText crates))

/-! ### Key templates -/

def masterKeyTemplate (label : String) : List Attribute :=
  [.objectClass .privateKey, .keyType .ec, .token true, .isPrivate true, .sensitive true,
    .extractable false, .sign true, .derive true, .label s!"{label}/priv",
    .ecParams SECP256K1_OID_DER]

def childKeyTemplate : List Attribute :=
  [.objectClass .privateKey, .keyType .ec, .token false, .isPrivate true, .sensitive true,
    .extractable false, .sign true, .derive true, .ecParams SECP256K1_OID_DER]

def seedSecretTemplate (seed : Bytes) : List Attribute :=
  [.objectClass .secretKey, .keyType .genericSecret, .token false, .isPrivate true,
    .sensitive true, .extractable false, .derive true, .value seed]

def parseEcPoint (crates : Crates D) (input : Bytes) : Except HsmBackendError PublicKey :=
  match derDecodeOctetStringLenient input with
  | .error e => .error (.metadataError s!"EC point: {e}")
  | .ok bytes =>
      match crates.publicKeyFromSlice bytes with
      | .error e => .error (.metadataError s!"invalid secp256k1 point: {e}")
      | .ok key => .ok key

/-! ### The standard recipe -/

/-- The index of a child in BIP-32 form: the high bit set means hardened. -/
def ChildNumber.indexWord : ChildNumber → UInt32
  | .normal index => UInt32.ofNat index.val
  | .hardened index => UInt32.ofNat index.val ||| 0x80000000

/-- `u32::to_le_bytes`. -/
def toLeBytes (word : UInt32) : Bytes :=
  [word.toUInt8, (word >>> 8).toUInt8, (word >>> 16).toUInt8, (word >>> 24).toUInt8]

/-- `u32::from_le_bytes`. -/
def fromLeBytes : Bytes → Option UInt32
  | [b0, b1, b2, b3] =>
      some (b0.toUInt32 ||| b1.toUInt32 <<< 8 ||| b2.toUInt32 <<< 16 ||| b3.toUInt32 <<< 24)
  | _ => none

/-- The mechanisms and attributes a vendor assigns to BIP-32. An override of `derive_child_key` is
for vendors whose child-derivation parameter differs, so the parameter is what it can change. -/
structure AttributeDerivation (K D : Type) where
  backendName : String
  masterDeriveMechanism : MechanismType
  childDeriveMechanism : MechanismType
  chainCodeAttribute : AttributeType
  depthAttribute : AttributeType
  parentFingerprintAttribute : AttributeType
  childIndexAttribute : AttributeType
  childParameter : ChildNumber → Bytes := fun child => toLeBytes child.indexWord
  taprootSigner : Option (TaprootSigner K D) := none

namespace AttributeDerivation

variable (recipe : AttributeDerivation K D)

def deriveChildKey (parentHandle : ObjectHandle) (child : ChildNumber) :
    TokenProgram K D HsmBackendError ObjectHandle :=
  Session.deriveKey .pkcs11
    (.vendorDefined recipe.childDeriveMechanism (recipe.childParameter child)) parentHandle
    childKeyTemplate

/-- Derive one segment after the other. -/
def derivePath (masterHandle : ObjectHandle) :
    DerivationPath → TokenProgram K D HsmBackendError ObjectHandle
  | [] => pure masterHandle
  | child :: path => do
      let current ← recipe.deriveChildKey masterHandle child
      derivePath current path

/-- The attributes `read_xpub` looks at, the last of each kind winning. -/
structure XpubParts where
  ecPoint : Option Bytes
  chainCode : Option Bytes
  depth : Option Bytes
  parentFp : Option Bytes
  childIdx : Option Bytes

def XpubParts.scan (parts : XpubParts) : Attribute → XpubParts
  | .ecPoint v => { parts with ecPoint := some v }
  | .vendorDefined id v =>
      let t := AttributeType.vendorDefined id
      if t = recipe.chainCodeAttribute then { parts with chainCode := some v }
      else if t = recipe.depthAttribute then { parts with depth := some v }
      else if t = recipe.parentFingerprintAttribute then { parts with parentFp := some v }
      else if t = recipe.childIndexAttribute then { parts with childIdx := some v }
      else parts
  | _ => parts

def orMetadata {α : Type} (reason : String) : Option α → Except HsmBackendError α
  | some a => .ok a
  | none => .error (.metadataError reason)

/-- The child number a word stands for. -/
def childNumberOf (word : UInt32) : ChildNumber :=
  if word &&& 0x80000000 ≠ 0 then .hardened (Fin.ofNat _ (word &&& 0x7FFFFFFF).toNat)
  else .normal (Fin.ofNat _ word.toNat)

/-- What `read_xpub` makes of the attributes a token returns. -/
def xpubOfAttributes (crates : Crates D) (attributes : List Attribute) :
    Except HsmBackendError Xpub := do
  let parts := attributes.foldl (XpubParts.scan recipe) ⟨none, none, none, none, none⟩
  let ecPoint ← orMetadata "missing CKA_EC_POINT" parts.ecPoint
  let chainCode ← orMetadata "missing chain code" parts.chainCode
  let depth ← orMetadata "missing depth" parts.depth
  let parentFp ← orMetadata "missing parent fingerprint" parts.parentFp
  let childIdx ← orMetadata "missing child index" parts.childIdx
  let pubkey ← parseEcPoint crates ecPoint
  let chainCode ← orMetadata "chain code != 32 bytes"
    (if chainCode.length = 32 then some chainCode else none)
  let depthByte ← orMetadata "empty depth" depth.head?
  let parentFp ← orMetadata "parent fingerprint != 4 bytes"
    (if parentFp.length = 4 then some parentFp else none)
  let childIdxWord ← orMetadata "child index != 4 bytes" (fromLeBytes childIdx)
  return {
    network := .main
    depth := depthByte
    parentFingerprint := parentFp
    childNumber := childNumberOf childIdxWord
    publicKey := pubkey
    chainCode := chainCode }

def readXpub (crates : Crates D) (keyHandle : ObjectHandle) :
    TokenProgram K D HsmBackendError Xpub := do
  let attributes ← Session.getAttributes .pkcs11 keyHandle
    [.ecPoint, recipe.chainCodeAttribute, recipe.depthAttribute, recipe.parentFingerprintAttribute,
      recipe.childIndexAttribute]
  Program.ofExcept ((recipe.xpubOfAttributes crates attributes).mapError .err)

/-- What `master_fingerprint` makes of the attributes a token returns. -/
def fingerprintOfAttributes (crates : Crates D) (attributes : List Attribute) :
    Except HsmBackendError Fingerprint := do
  let ecPoint ← orMetadata "missing CKA_EC_POINT" (attributes.findSome? Attribute.ecPoint?)
  let pubkey ← parseEcPoint crates ecPoint
  return crates.fingerprintOf pubkey

def masterFingerprint (crates : Crates D) (keyHandle : ObjectHandle) :
    TokenProgram K D HsmBackendError Fingerprint := do
  let attributes ← Session.getAttributes .pkcs11 keyHandle [.ecPoint]
  Program.ofExcept ((fingerprintOfAttributes crates attributes).mapError .err)

/-- The 64 bytes sent for a seed: an empty seed is sent as zeros. -/
def seedBuffer (seed : Bytes) : Bytes :=
  if seed.length = 64 then seed else List.replicate 64 0

/-- The last part of `derive_master_key`: read the new key back. -/
def readMaster (crates : Crates D) (keyHandle : ObjectHandle) :
    TokenProgram K D HsmBackendError MasterKeyHandle := do
  let xpub ← recipe.readXpub crates keyHandle
  let fingerprint ← masterFingerprint crates keyHandle
  pure ⟨keyHandle, xpub, fingerprint⟩

def deriveMasterKey (crates : Crates D) (seed : Bytes) (label : String) :
    TokenProgram K D HsmBackendError MasterKeyHandle := do
  if !seed.isEmpty ∧ seed.length ≠ 64 then
    throw (.err (.derivation
      s!"BIP-32 master seed must be 64 bytes (or empty for backend-resolved seeds), got {seed.length}"))
  else
    let seedBuf := seedBuffer seed
    let mech : Mechanism := .vendorDefined recipe.masterDeriveMechanism seedBuf
    let baseKey ← Session.createObject .pkcs11 (seedSecretTemplate seedBuf)
    -- the result is looked at only after the seed object is gone
    let result ← Session.tryDeriveKey mech baseKey (masterKeyTemplate label)
    Session.tryDestroyObject baseKey
    let keyHandle ← orStop .pkcs11 result
    recipe.readMaster crates keyHandle

/-- `impl<T: AttributeDerivation> HsmBackend for T`. -/
def toHsmBackend (crates : Crates D) : HsmBackend K D where
  backendName := recipe.backendName
  deriveMasterKey := recipe.deriveMasterKey crates
  derivePath := recipe.derivePath
  readXpub := recipe.readXpub crates
  masterFingerprint := masterFingerprint crates
  segwitSigner := some (pkcs11EcdsaSigner crates)
  taprootSigner := recipe.taprootSigner

end AttributeDerivation

end EmvaultPkcs11
