import EmvaultPkcs11.Bitcoin

/-! What a signature commits to. A sighash is the digest of a message that BIP-143 (SegWit v0) or
BIP-341 (Taproot script path) builds from the transaction, the input and the sighash type; the
messages are written field by field, with the fields a sighash type blanks left out, and the digest
itself stays a parameter of the development. -/

namespace EmvaultPkcs11

/-- What the `bitcoin` and `cryptoki` crates report or print, as far as this crate copies it into its
own errors. The texts themselves are a parameter. -/
inductive Foreign where
  | amount (value : Amount)
  | scriptDebug (script : Script)
  | network (network : Network)
  | networkMismatch (address : Address) (network : Network)
  | nonStandardSighashType (value : UInt32)
  | invalidTaprootSighashType (value : UInt32)
  | inputsIndex (index length : Nat)
  | prevoutsSize
  | singleMissingOutput
  deriving DecidableEq

inductive EcdsaSighashType where
  | all | none | single
  | allPlusAnyoneCanPay | nonePlusAnyoneCanPay | singlePlusAnyoneCanPay
  deriving DecidableEq

namespace EcdsaSighashType

def toU32 : EcdsaSighashType → UInt32
  | .all => 0x01
  | .none => 0x02
  | .single => 0x03
  | .allPlusAnyoneCanPay => 0x81
  | .nonePlusAnyoneCanPay => 0x82
  | .singlePlusAnyoneCanPay => 0x83

/-- `EcdsaSighashType::from_standard`. -/
def fromStandard (value : UInt32) : Except Foreign EcdsaSighashType :=
  if value = 0x01 then .ok .all
  else if value = 0x02 then .ok .none
  else if value = 0x03 then .ok .single
  else if value = 0x81 then .ok .allPlusAnyoneCanPay
  else if value = 0x82 then .ok .nonePlusAnyoneCanPay
  else if value = 0x83 then .ok .singlePlusAnyoneCanPay
  else .error (.nonStandardSighashType value)

def anyoneCanPay : EcdsaSighashType → Bool
  | .all | .none | .single => false
  | .allPlusAnyoneCanPay | .nonePlusAnyoneCanPay | .singlePlusAnyoneCanPay => true

def isAll : EcdsaSighashType → Bool
  | .all | .allPlusAnyoneCanPay => true
  | _ => false

def isSingle : EcdsaSighashType → Bool
  | .single | .singlePlusAnyoneCanPay => true
  | _ => false

end EcdsaSighashType

inductive TapSighashType where
  | default | all | none | single
  | allPlusAnyoneCanPay | nonePlusAnyoneCanPay | singlePlusAnyoneCanPay
  deriving DecidableEq

namespace TapSighashType

/-- `PsbtSighashType::taproot_hash_ty`. -/
def fromPsbt (value : UInt32) : Except Foreign TapSighashType :=
  if value = 0x00 then .ok .default
  else if value = 0x01 then .ok .all
  else if value = 0x02 then .ok .none
  else if value = 0x03 then .ok .single
  else if value = 0x81 then .ok .allPlusAnyoneCanPay
  else if value = 0x82 then .ok .nonePlusAnyoneCanPay
  else if value = 0x83 then .ok .singlePlusAnyoneCanPay
  else .error (.invalidTaprootSighashType value)

def anyoneCanPay : TapSighashType → Bool
  | .default | .all | .none | .single => false
  | .allPlusAnyoneCanPay | .nonePlusAnyoneCanPay | .singlePlusAnyoneCanPay => true

def isAll : TapSighashType → Bool
  | .default | .all | .allPlusAnyoneCanPay => true
  | _ => false

def isSingle : TapSighashType → Bool
  | .single | .singlePlusAnyoneCanPay => true
  | _ => false

end TapSighashType

/-- The outputs a message commits to: all of them, one of them, or the zero hash. -/
inductive OutputsDigest where
  | all (outputs : List TxOut)
  | single (output : TxOut)
  | zero
  deriving DecidableEq

/-- The BIP-143 message (`segwit_v0_encode_signing_data_to`). A blanked hash is `none`. -/
structure SegwitV0Message where
  version : Int
  hashPrevouts : Option (List OutPoint)
  hashSequence : Option (List Nat)
  outpoint : OutPoint
  scriptCode : Script
  value : Amount
  sequence : Nat
  hashOutputs : OutputsDigest
  lockTime : Nat
  sighashType : EcdsaSighashType
  deriving DecidableEq

/-- The outputs part of the BIP-143 message. A `SINGLE` type whose input has no output at its own
index commits to the zero hash. -/
def segwitV0Outputs (outputs : List TxOut) (inputIdx : Nat) (ty : EcdsaSighashType) : OutputsDigest :=
  if ty.isAll then .all outputs
  else if ty.isSingle then
    match outputs[inputIdx]? with
    | some output => .single output
    | none => .zero
  else .zero

/-- `SighashCache::p2wsh_signature_hash`, up to the hash. -/
def p2wshSignatureMessage (tx : Transaction) (inputIdx : Nat) (witnessScript : Script)
    (value : Amount) (ty : EcdsaSighashType) : Except Foreign SegwitV0Message :=
  match tx.input[inputIdx]? with
  | none => .error (.inputsIndex inputIdx tx.input.length)
  | some txin => .ok {
      version := tx.version
      hashPrevouts := if ty.anyoneCanPay then none else some (tx.input.map TxIn.previousOutput)
      hashSequence :=
        if ty.anyoneCanPay || !ty.isAll then none else some (tx.input.map TxIn.sequence)
      outpoint := txin.previousOutput
      scriptCode := witnessScript
      value := value
      sequence := txin.sequence
      hashOutputs := segwitV0Outputs tx.output inputIdx ty
      lockTime := tx.lockTime
      sighashType := ty }

/-- The inputs part of the BIP-341 message. -/
inductive TaprootInputs where
  | all (outpoints : List OutPoint) (prevouts : List TxOut) (sequences : List Nat) (inputIdx : Nat)
  | one (outpoint : OutPoint) (prevout : TxOut) (sequence : Nat)
  deriving DecidableEq

/-- The BIP-341 message of a script-path spend (`taproot_encode_signing_data_to`). -/
structure TaprootMessage where
  sighashType : TapSighashType
  version : Int
  lockTime : Nat
  inputs : TaprootInputs
  outputs : OutputsDigest
  leafHash : TapLeafHash
  deriving DecidableEq

/-- The outputs part of the BIP-341 message. Here a `SINGLE` type without its output is an error. -/
def taprootOutputs (outputs : List TxOut) (inputIdx : Nat) (ty : TapSighashType) :
    Except Foreign OutputsDigest :=
  if ty.isAll then .ok (.all outputs)
  else if ty.isSingle then
    match outputs[inputIdx]? with
    | some output => .ok (.single output)
    | none => .error .singleMissingOutput
  else .ok .zero

/-- The inputs part of the BIP-341 message. -/
def taprootInputs (tx : Transaction) (inputIdx : Nat) (prevouts : List TxOut) (ty : TapSighashType) :
    Except Foreign TaprootInputs :=
  if ty.anyoneCanPay then
    match tx.input[inputIdx]?, prevouts[inputIdx]? with
    | some txin, some prevout => .ok (.one txin.previousOutput prevout txin.sequence)
    | _, _ => .error (.inputsIndex inputIdx tx.input.length)
  else .ok (.all (tx.input.map TxIn.previousOutput) prevouts (tx.input.map TxIn.sequence) inputIdx)

/-- `SighashCache::taproot_script_spend_signature_hash` over `Prevouts::All`, up to the hash. -/
def taprootScriptSpendMessage (tx : Transaction) (inputIdx : Nat) (prevouts : List TxOut)
    (leafHash : TapLeafHash) (ty : TapSighashType) : Except Foreign TaprootMessage :=
  if prevouts.length ≠ tx.input.length then .error .prevoutsSize
  else
    match taprootInputs tx inputIdx prevouts ty, taprootOutputs tx.output inputIdx ty with
    | .ok inputs, .ok outputs =>
        .ok { sighashType := ty, version := tx.version, lockTime := tx.lockTime, inputs := inputs,
              outputs := outputs, leafHash := leafHash }
    | .error e, _ => .error e
    | _, .error e => .error e

/-- A message of either kind: what a 32-byte sighash stands for. -/
inductive SighashMessage where
  | segwitV0 (message : SegwitV0Message)
  | taproot (message : TaprootMessage)
  deriving DecidableEq

end EmvaultPkcs11
