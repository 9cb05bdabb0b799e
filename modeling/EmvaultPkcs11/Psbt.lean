import EmvaultPkcs11.Sighash

/-! The PSBT a signer is handed: the unsigned transaction and, for each input, the maps the signing
paths read (key origins, scripts, the spent output, the requested sighash type) and the two maps they
write (`partial_sigs`, `tap_script_sigs`). -/

namespace EmvaultPkcs11

/-- A signature, with the private key that made it. No code reads the key: it is where the bytes
came from, which is what a statement about the right key is about. -/
structure Signature (K : Type) where
  bytes : Bytes
  madeWith : K
  deriving DecidableEq

/-- `bitcoin::ecdsa::Signature`. -/
structure EcdsaSignature (K : Type) where
  signature : Signature K
  sighashType : EcdsaSighashType
  deriving DecidableEq

/-- `bitcoin::taproot::Signature`. -/
structure TaprootSignature (K : Type) where
  signature : Signature K
  sighashType : TapSighashType
  deriving DecidableEq

/-- Where a key comes from: the fingerprint of its master and the path below the master. -/
abbrev KeySource := Fingerprint × DerivationPath

/-- `bitcoin::psbt::Input`, with all its taproot fields. `rest` stands for the other fields the crate neither
reads nor writes, as they are serialized. -/
structure Input (K : Type) where
  witnessUtxo : Option TxOut
  witnessScript : Option Script
  sighashType : Option UInt32
  bip32Derivation : BTreeMap PublicKey KeySource
  partialSigs : BTreeMap BitcoinPublicKey (EcdsaSignature K)
  tapInternalKey : Option XOnlyPublicKey
  tapScripts : BTreeMap ControlBlock (Script × Nat)
  tapKeyOrigins : BTreeMap XOnlyPublicKey (List TapLeafHash × KeySource)
  tapScriptSigs : BTreeMap TapScriptKey (TaprootSignature K)
  tapKeySig : Option (TaprootSignature K) := none
  tapMerkleRoot : Option Bytes := none
  rest : Bytes := []

/-- `bitcoin::Psbt`, with its outputs and its other global fields as they are serialized. -/
structure Psbt (K : Type) where
  unsignedTx : Transaction
  inputs : List (Input K)
  outputs : List Bytes := []
  rest : Bytes := []

variable {K : Type}

/-- A signature on its way into an input map, with the key of the map entry. -/
inductive Insertion (K : Type) where
  | partialSig (publicKey : BitcoinPublicKey) (signature : EcdsaSignature K)
  | tapScriptSig (xonly : XOnlyPublicKey) (leafHash : TapLeafHash) (signature : TaprootSignature K)
  deriving DecidableEq

/-- Insert a signature into the map it belongs to, replacing an entry under the same key. -/
def Input.insert (input : Input K) : Insertion K → Input K
  | .partialSig publicKey signature =>
      { input with partialSigs := input.partialSigs.insert publicKey signature }
  | .tapScriptSig xonly leafHash signature =>
      { input with tapScriptSigs := input.tapScriptSigs.insert ⟨xonly, leafHash⟩ signature }

/-- Insert a signature into the input at an index. -/
def Psbt.insert (psbt : Psbt K) (inputIdx : Nat) (insertion : Insertion K) : Psbt K :=
  { psbt with inputs := psbt.inputs.modify inputIdx fun input => input.insert insertion }

end EmvaultPkcs11
