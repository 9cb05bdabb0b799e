import EmvaultPkcs11.Elements
import EmvaultPkcs11.SlotSession

/-! What a signer offers besides signing (signer.rs, error.rs): reading and replacing the policy, the facts and
the health check of `emvault_core::Signer`, and the wrapper that corrects the network of the xpub. -/

open Effect

namespace EmvaultPkcs11

variable {K D T ε α : Type}

/-! ### Errors -/

/-- `emvault_core::SignerError`, of which the crate makes three cases. -/
inductive SignerError where
  | policyViolation (id rule : String)
  | signingFailed (id reason : String)
  | backend (reason : String)
  deriving DecidableEq

/-- `impl From<Pkcs11Error> for SignerError`. -/
def SignerError.ofPkcs11 (crates : Crates D) : Pkcs11Error → SignerError
  | .policyViolation rule => .policyViolation "pkcs11" rule
  | .hsmBackend (.derivation reason) => .signingFailed "pkcs11" s!"backend derivation: {reason}"
  | .hsmBackend (.keyNotFound label) => .backend s!"key not found: {label}"
  | other => .backend (other.toText crates)

/-! ### Facts -/

/-- `emvault_core::ElementsNetworkId`. -/
inductive ElementsNetworkId where
  | liquid | liquidTestnet | elementsRegtest
  deriving DecidableEq

inductive NetworkType where
  | bitcoin (network : Network)
  | elements (id : ElementsNetworkId)
  deriving DecidableEq

/-- `emvault_core::SignerType`, of which the crate makes one case. -/
inductive SignerType where
  | software
  deriving DecidableEq

structure SignerHealth where
  reachable : Bool
  firmwareVersion : Option String
  lastSeen : Option Nat
  deriving DecidableEq

/-- What an `emvault_core::Signer` says of itself. -/
structure SignerFacts where
  id : SignerId
  label : Option String
  xpub : Xpub
  fingerprint : Fingerprint
  derivationPath : DerivationPath
  signerType : SignerType
  supportedNetworks : List NetworkType
  capabilities : SignerCapabilities
  deriving DecidableEq

/-- The Elements network that goes with a Bitcoin network, if one does. -/
def elementsNetworkId : Network → Option ElementsNetworkId
  | .bitcoin => some .liquid
  | .testnet => some .liquidTestnet
  | .regtest => some .elementsRegtest
  | _ => none

/-- `Pkcs11Session::token_label`. -/
def Slot.tokenName (slot : Slot) : Except Pkcs11Error String := do
  let info ← slot.tokenLabel.mapError .pkcs11
  return trim info

/-- What `expect` panics with on a poisoned mutex. -/
def lockPanic : String := "Pkcs11Signer mutex poisoned: PoisonError \x7b .. \x7d"

/-- `lock().expect(..)` around a call: a poisoned mutex makes the call panic, and so does a panic inside it,
which poisons the mutex. -/
def expectLock (body : SignM K T ε α) : SignM K T ε α := fun s =>
  if s.poisoned then .error (.panic lockPanic) s
  else
    match body.run s with
    | .error (.panic message) s' => .error (.panic message) { s' with poisoned := true }
    | result => result

namespace Pkcs11Signer

variable (signer : Pkcs11Signer K D) (hsm : Hsm K D) (serde : Serde)

def supportedNetworks : List NetworkType :=
  .bitcoin signer.network :: ((elementsNetworkId signer.network).map NetworkType.elements).toList

/-- The methods of `impl Signer for Pkcs11Signer` that ask nothing of the token. -/
def facts : SignerFacts where
  id := signer.id
  label := some signer.label
  xpub := signer.xpub
  fingerprint := signer.fingerprint
  derivationPath := signer.derivationPath
  signerType := .software
  supportedNetworks := signer.supportedNetworks
  capabilities := signer.capabilities

/-- `Pkcs11Signer::policy`. -/
def policy : SignM K Unit Pkcs11Error MinimalHsmPolicy :=
  expectLock (onToken hsm (fun e => e) (loadPolicy serde signer.label))

/-- `Pkcs11Signer::set_policy`. -/
def setPolicy (p : MinimalHsmPolicy) : SignM K Unit Pkcs11Error Unit :=
  expectLock do
    let _ ← onToken hsm (fun e => e) (savePolicy serde signer.label p)
    pure ()

end Pkcs11Signer

/-- `Signer::health_check` of a signer whose session is on the slot. The mutex is free again when the clock is
read. -/
def healthCheck (crates : Crates D) (hsm : Hsm K D) (slot : Slot) : SignM K Unit SignerError SignerHealth := do
  let label ← withLock (.backend "Pkcs11Signer mutex poisoned")
    (orErr (slot.tokenName.mapError (SignerError.ofPkcs11 crates)))
  let now ← onToken hsm (fun e : SignerError => e) Session.now
  pure ⟨true, some s!"pkcs11/{label}", some now⟩

/-! ### The wrapper -/

/-- `NetworkKind::from`. -/
def NetworkKind.ofNetwork : Network → NetworkKind
  | .bitcoin => .main
  | _ => .test

def patchXpubNetwork (xpub : Xpub) (network : Network) : Xpub :=
  { xpub with network := .ofNetwork network }

structure NetworkPatchedSigner (K D : Type) where
  inner : Pkcs11Signer K D
  patchedXpub : Xpub

namespace NetworkPatchedSigner

def new (inner : Pkcs11Signer K D) (network : Network) : NetworkPatchedSigner K D :=
  ⟨inner, patchXpubNetwork inner.xpub network⟩

/-- `impl Signer for NetworkPatchedSigner`. Its health check is that of the signer inside. -/
def facts (signer : NetworkPatchedSigner K D) : SignerFacts :=
  { signer.inner.facts with xpub := signer.patchedXpub }

end NetworkPatchedSigner

end EmvaultPkcs11
