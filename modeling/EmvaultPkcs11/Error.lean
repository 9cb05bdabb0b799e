import EmvaultPkcs11.Sighash
import EmvaultPkcs11.Token

/-! The error types of the crate with the texts they print, and the functions of third-party crates
that the crate calls. What those crates print (`foreignText`, `cryptokiText`) is a parameter. -/

namespace EmvaultPkcs11

/-- The functions of `bitcoin` and `secp256k1` that the crate calls. -/
structure Crates (D : Type) where
  /-- The 32-byte digest of a sighash message. -/
  digest : SighashMessage → D
  /-- `ecdsa::Signature::from_compact`. -/
  fromCompact : Bytes → Except String Bytes
  /-- `ecdsa::Signature::normalize_s`. -/
  normalizeS : Bytes → Bytes
  /-- `PublicKey::from_slice`. -/
  publicKeyFromSlice : Bytes → Except String PublicKey
  /-- The first four bytes of the HASH160 of the compressed key. -/
  fingerprintOf : PublicKey → Fingerprint
  foreignText : Foreign → String
  cryptokiText : CryptokiError → String

inductive HsmBackendError where
  | pkcs11 (source : CryptokiError)
  | derivation (reason : String)
  | keyNotFound (label : String)
  | metadataError (reason : String)
  | signing (reason : String)
  deriving DecidableEq

variable {D : Type}

def HsmBackendError.toText (crates : Crates D) : HsmBackendError → String
  | .pkcs11 source => s!"PKCS#11 error: {crates.cryptokiText source}"
  | .derivation reason => s!"BIP-32 derivation error: {reason}"
  | .keyNotFound label => s!"key not found: {label}"
  | .metadataError reason => s!"BIP-32 metadata error: {reason}"
  | .signing reason => s!"signing error: {reason}"

inductive Pkcs11Error where
  | libraryLoad (path : String) (source : CryptokiError)
  | initializeFailed (source : CryptokiError)
  | slotNotFound (slot : String)
  | noToken (slot : String)
  | loginFailed (source : CryptokiError)
  | pkcs11 (source : CryptokiError)
  | mechanismUnsupported (name : String)
  | hsmBackend (source : HsmBackendError)
  | objectNotFound (what : String)
  | ambiguous (query : String) (count : Nat)
  | invalidConfig (reason : String)
  | policyViolation (rule : String)
  | secp256k1 (reason : String)
  | bitcoin (reason : String)
  | serialization (reason : String)
  | env (var reason : String)
  | backend (reason : String)
  deriving DecidableEq

def Pkcs11Error.toText (crates : Crates D) : Pkcs11Error → String
  | .libraryLoad path source =>
      s!"failed to load PKCS#11 library at {path}: {crates.cryptokiText source}"
  | .initializeFailed source => s!"PKCS#11 initialize failed: {crates.cryptokiText source}"
  | .slotNotFound slot => s!"PKCS#11 slot not found: {slot}"
  | .noToken slot => s!"PKCS#11 slot {slot} has no initialized token"
  | .loginFailed source => s!"PKCS#11 login failed: {crates.cryptokiText source}"
  | .pkcs11 source => s!"PKCS#11 error: {crates.cryptokiText source}"
  | .mechanismUnsupported name => s!"PKCS#11 mechanism {name} not supported by this token"
  | .hsmBackend source => s!"HSM backend error: {source.toText crates}"
  | .objectNotFound what => s!"PKCS#11 object not found: {what}"
  | .ambiguous query count => s!"PKCS#11 found {count} objects matching {query} (expected exactly 1)"
  | .invalidConfig reason => s!"invalid PKCS#11 configuration: {reason}"
  | .policyViolation rule => s!"HSM policy violation: {rule}"
  | .secp256k1 reason => s!"secp256k1 error: {reason}"
  | .bitcoin reason => s!"bitcoin error: {reason}"
  | .serialization reason => s!"serialization error: {reason}"
  | .env var reason => s!"environment variable {var} missing or invalid: {reason}"
  | .backend reason => s!"backend error: {reason}"

/-- `bdk_wallet::signer::SignerError`, of which the crate makes one case. -/
inductive BdkSignerError where
  | external (message : String)
  deriving DecidableEq

/-- `emvault_elements::error::PsetError`, of which the crate makes two cases. -/
inductive PsetError where
  | signerBackend (message : String)
  | elements (message : String)
  deriving DecidableEq

end EmvaultPkcs11
