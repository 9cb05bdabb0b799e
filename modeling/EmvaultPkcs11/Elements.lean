import EmvaultPkcs11.Signer

/-! The Elements signing path (elements.rs): `sign_pset` on a PSET. The `elements` crate is a
parameter: how a PSET becomes an unsigned transaction, the SegWit v0 digest of that transaction, and
the DER form of a signature. -/

open Effect

namespace EmvaultPkcs11

/-- `elements::confidential::Value`. -/
inductive ConfidentialValue where
  | null
  | explicit (value : Amount)
  | confidential (commitment : Bytes)
  deriving DecidableEq

/-- `elements::TxOut`, of which signing reads the value. -/
structure ElementsTxOut where
  value : ConfidentialValue
  deriving DecidableEq

/-- `elements::pset::Input`. Its map values are DER signatures followed by the sighash byte. `rest` stands
for the fields the crate neither reads nor writes. -/
structure PsetInput (K : Type) where
  witnessUtxo : Option ElementsTxOut
  witnessScript : Option Script
  sighashType : Option UInt32
  bip32Derivation : BTreeMap BitcoinPublicKey KeySource
  partialSigs : BTreeMap BitcoinPublicKey (Signature K)
  rest : Bytes := []

/-- `elements::pset::Output`: an explicit amount, where it has one, and a script. The script of a fee
output is empty. -/
structure PsetOutput where
  amount : Option Amount
  scriptPubkey : Script
  deriving DecidableEq

/-- `elements::pset::PartiallySignedTransaction`. `rest` stands for the fields only `extract_tx`
reads. -/
structure Pset (K : Type) where
  inputs : List (PsetInput K)
  outputs : List PsetOutput
  rest : Bytes

/-- The functions of `elements` that `sign_pset` calls, with `X` for its transactions. -/
structure ElementsCrate (K D X : Type) where
  extractTx : Pset K → Except String X
  segwitv0Sighash : X → Nat → Script → ConfidentialValue → EcdsaSighashType → D
  serializeDer : Bytes → Bytes

variable {K D X : Type}

/-- A DER signature with its sighash byte. -/
def derWithSighash (elements : ElementsCrate K D X) (sig : EcdsaSignature K) : Signature K :=
  { sig.signature with
    bytes := elements.serializeDer sig.signature.bytes ++ [sig.sighashType.toU32.toUInt8] }

/-- Insert a signature into `partial_sigs`; a PSET input has no other signature map. -/
def PsetInput.insert (elements : ElementsCrate K D X) (input : PsetInput K) :
    Insertion K → PsetInput K
  | .partialSig publicKey signature =>
      { input with
        partialSigs := input.partialSigs.insert publicKey (derWithSighash elements signature) }
  | .tapScriptSig _ _ _ => input

def Pset.insert (elements : ElementsCrate K D X) (pset : Pset K) (inputIdx : Nat)
    (insertion : Insertion K) : Pset K :=
  { pset with inputs := pset.inputs.modify inputIdx fun input => input.insert elements insertion }

namespace Pkcs11Signer

variable (signer : Pkcs11Signer K D) (crates : Crates D) (elements : ElementsCrate K D X)
  (hsm : Hsm K D)

/-- The first key-origin entry, in key order, with this signer's fingerprint. -/
def ourPsetOrigin (input : PsetInput K) : Option (BitcoinPublicKey × DerivationPath) :=
  (input.bip32Derivation.toList.find? fun entry => entry.2.1 = signer.fingerprint).map
    fun entry => (entry.1, entry.2.2)

/-- `PsbtSighashType::ecdsa_hash_ty` of the `elements` crate, `ALL` where it gives none. -/
def psetSighashType (input : PsetInput K) : EcdsaSighashType :=
  (input.sighashType.bind fun value => (EcdsaSighashType.fromStandard value).toOption).getD .all

def orElements {α : Type} (message : String) : Option α → Except PsetError α
  | some a => .ok a
  | none => .error (.elements message)

/-- The path below the federation key: as many segments dropped as the federation path has. -/
def psetRelativePath (inputIdx : Nat) (path : DerivationPath) : Except PsetError DerivationPath :=
  if path.length < signer.derivationPath.length then
    .error (.elements s!"input {inputIdx} BIP-32 path is shorter than federation path")
  else .ok (path.drop signer.derivationPath.length)

/-- What a PSET input asks this signer for, if anything. -/
def psetRequest (unsignedTx : X) (inputIdx : Nat) (input : PsetInput K) :
    Except PsetError (Option (EcdsaRequest D)) :=
  match signer.ourPsetOrigin input with
  | none => .ok none
  | some (ourPk, inputPath) => do
      let relativePath ← signer.psetRelativePath inputIdx inputPath
      let sighashType := psetSighashType input
      let witnessScript ← orElements
        s!"input {inputIdx} missing witness_script (only P2WSH multi-sig is supported by Pkcs11Signer in v1)"
        input.witnessScript
      let witnessUtxo ← orElements s!"input {inputIdx} missing witness_utxo" input.witnessUtxo
      return some ⟨ourPk, relativePath, sighashType,
        elements.segwitv0Sighash unsignedTx inputIdx witnessScript witnessUtxo.value sighashType⟩

/-- One round of the input loop. -/
def signPsetInput (unsignedTx : X) (inputIdx : Nat) : SignM K (Pset K) PsetError Bool := do
  let pset := (← get).transaction
  match pset.inputs[inputIdx]? with
  | none => throw (.panic "index out of bounds")
  | some input => do
      let request ← orErr (signer.psetRequest elements unsignedTx inputIdx input)
      match request with
      | none => pure false
      | some request => do
          let sig ← signer.signRequest crates hsm .signerBackend request
          putSignature hsm (Pset.insert elements) inputIdx
            (.partialSig request.publicKey ⟨sig, request.sighashType⟩)
          pure true

/-- The part of `sign_pset` before the signature rate is recorded. The policy it loads is used for
the signature rate only. -/
def signPsetInputs (serde : Serde) : SignM K (Pset K) PsetError (MinimalHsmPolicy × Nat) := do
  let policy ← onToken hsm (fun e => .signerBackend (e.toText crates)) (loadPolicy serde signer.label)
  let pset := (← get).transaction
  let unsignedTx ← orErr ((elements.extractTx pset).mapError .elements)
  let signed ← (List.range pset.inputs.length).foldlM (fun signed inputIdx => do
    let one ← signer.signPsetInput crates elements hsm unsignedTx inputIdx
    pure (if one then signed + 1 else signed)) 0
  pure (policy, signed)

/-- `<Pkcs11Signer as ElementsSigner>::sign_pset`. -/
def signPset (serde : Serde) : SignM K (Pset K) PsetError Nat :=
  withLock (.signerBackend "Pkcs11Signer mutex poisoned") do
    let (policy, signed) ← signer.signPsetInputs crates elements hsm serde
    signer.recordIfSigned crates hsm serde .signerBackend policy (0 < signed)
    pure signed

end Pkcs11Signer

end EmvaultPkcs11
