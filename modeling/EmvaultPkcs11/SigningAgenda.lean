import EmvaultPkcs11.Elements
import EmvaultPkcs11.LibraryAgenda

/-! What a signing call is asked for, as data. The agenda of a PSBT lists, input by input and leaf by
leaf, the signatures the signer is to make and the places where it refuses; the call works through it
in order. An agenda reads no signature map, so it stays the same while the call writes into them. -/

open Agenda

namespace EmvaultPkcs11

/-- The map entry a signature is for. -/
inductive TargetKey where
  | ecdsa (publicKey : BitcoinPublicKey) (sighashType : EcdsaSighashType)
  | schnorr (xonly : XOnlyPublicKey) (leafHash : TapLeafHash) (sighashType : TapSighashType)
      (fullPath : DerivationPath)
  deriving DecidableEq

/-- A signature to make: for which input and entry, with the key at which path below the federation
key, over which digest. -/
structure Target (D : Type) where
  inputIdx : Nat
  relativePath : DerivationPath
  key : TargetKey
  digest : D
  deriving DecidableEq

variable {K D X : Type}

/-- What is put into the input for a target, from what the backend's signer returned. -/
def Target.insertion (crates : Crates D) (target : Target D) (sig : Signature K) : Insertion K :=
  match target.key with
  | .ecdsa publicKey sighashType =>
      .partialSig publicKey ⟨{ sig with bytes := crates.normalizeS sig.bytes }, sighashType⟩
  | .schnorr xonly leafHash sighashType _ => .tapScriptSig xonly leafHash ⟨sig, sighashType⟩

/-- The target an ECDSA request stands for. -/
def EcdsaRequest.target (request : EcdsaRequest D) (inputIdx : Nat) : Target D where
  inputIdx := inputIdx
  relativePath := request.relativePath
  key := .ecdsa request.publicKey request.sighashType
  digest := request.sighash

/-- The agenda of an input with at most one request. -/
def requestAgenda {ε : Type} (inputIdx : Nat) :
    Except ε (Option (EcdsaRequest D)) → List (Except ε (Target D))
  | .error e => [.error e]
  | .ok none => []
  | .ok (some request) => [.ok (request.target inputIdx)]

namespace Pkcs11Signer

variable (signer : Pkcs11Signer K D) (crates : Crates D) (elements : ElementsCrate K D X)

/-- What a taproot sighash commits to beside the transaction and the leaf. -/
def tapContext (psbt : Psbt K) (input : Input K) :
    Except BdkSignerError (List TxOut × TapSighashType) := do
  let prevouts ← allPrevouts psbt
  let sighashType ← tapSighashType crates input
  return (prevouts, sighashType)

/-- The item of one leaf. -/
def leafItem (tx : Transaction) (inputIdx : Nat) (relativePath : DerivationPath) (prevouts : List TxOut)
    (sighashType : TapSighashType) (ourXonly : XOnlyPublicKey) (fullPath : DerivationPath)
    (leafHash : TapLeafHash) : Except BdkSignerError (Target D) :=
  match leafSighash crates tx inputIdx prevouts leafHash sighashType with
  | .error e => .error e
  | .ok digest => .ok ⟨inputIdx, relativePath, .schnorr ourXonly leafHash sighashType fullPath, digest⟩

def leavesAgenda (psbt : Psbt K) (inputIdx : Nat) (input : Input K) (relativePath : DerivationPath)
    (ourXonly : XOnlyPublicKey) (leafHashes : List TapLeafHash) (fullPath : DerivationPath) :
    List (Except BdkSignerError (Target D)) :=
  match tapContext crates psbt input with
  | .error e => [.error e]
  | .ok (prevouts, sighashType) =>
      leafHashes.map (leafItem crates psbt.unsignedTx inputIdx relativePath prevouts sighashType ourXonly
        fullPath)

def taprootAgenda (psbt : Psbt K) (inputIdx : Nat) (input : Input K) :
    List (Except BdkSignerError (Target D)) :=
  match signer.ourTapOrigin input with
  | none => []
  | some (ourXonly, leafHashes, fullPath) =>
      if leafHashes.isEmpty then []
      else
        match signer.backend.taprootSigner with
        | none => [.error (.external
            s!"backend `{signer.backend.backendName}` does not support Taproot (Schnorr) signing")]
        | some _ =>
            match signer.relativePath
                (s!"input {inputIdx} taproot BIP-32 path {displayPath fullPath} is shorter than this signer's " ++
                  s!"federation path {displayPath signer.derivationPath}")
                fullPath with
            | .error e => [.error e]
            | .ok relativePath =>
                leavesAgenda crates psbt inputIdx input relativePath ourXonly leafHashes fullPath

def inputAgenda (psbt : Psbt K) (inputIdx : Nat) : List (Except BdkSignerError (Target D)) :=
  match psbt.inputs[inputIdx]? with
  | none => []
  | some input =>
      if isTaproot input then signer.taprootAgenda crates psbt inputIdx input
      else requestAgenda inputIdx (signer.wshRequest crates psbt.unsignedTx inputIdx input)

/-- What a PSBT asks a signer for. -/
def agenda (psbt : Psbt K) : List (Except BdkSignerError (Target D)) :=
  (List.range psbt.inputs.length).flatMap (signer.inputAgenda crates psbt)

def psetInputAgenda (unsignedTx : X) (pset : Pset K) (inputIdx : Nat) :
    List (Except PsetError (Target D)) :=
  match pset.inputs[inputIdx]? with
  | none => []
  | some input => requestAgenda inputIdx (signer.psetRequest elements unsignedTx inputIdx input)

def psetInputsAgenda (unsignedTx : X) (pset : Pset K) : List (Except PsetError (Target D)) :=
  (List.range pset.inputs.length).flatMap (signer.psetInputAgenda elements unsignedTx pset)

/-- What a PSET asks a signer for. A PSET without an unsigned transaction is rejected as a whole. -/
def psetAgenda (pset : Pset K) : List (Except PsetError (Target D)) :=
  match elements.extractTx pset with
  | .error e => [.error (.elements e)]
  | .ok unsignedTx => signer.psetInputsAgenda elements unsignedTx pset

end Pkcs11Signer

/-! ### The agenda reads no signature map -/

/-- An input without its signatures. -/
def Input.unsigned (input : Input K) : Input K :=
  { input with partialSigs := ∅, tapScriptSigs := ∅ }

/-- A PSBT without its signatures: all that other signers cannot change. -/
def Psbt.unsigned (psbt : Psbt K) : Psbt K :=
  { psbt with inputs := psbt.inputs.map Input.unsigned }

def PsetInput.unsigned (input : PsetInput K) : PsetInput K := { input with partialSigs := ∅ }

def Pset.unsigned (pset : Pset K) : Pset K :=
  { pset with inputs := pset.inputs.map PsetInput.unsigned }

@[simp] theorem Input.unsigned_insert (input : Input K) (insertion : Insertion K) :
    (input.insert insertion).unsigned = input.unsigned := by
  cases insertion <;> rfl

@[simp] theorem PsetInput.unsigned_insert (elements : ElementsCrate K D X) (input : PsetInput K)
    (insertion : Insertion K) : (input.insert elements insertion).unsigned = input.unsigned := by
  cases insertion <;> rfl

theorem map_modify_of_eq {α β : Type} (f : α → β) (g : α → α) (h : ∀ a, f (g a) = f a)
    (l : List α) (i : Nat) : (l.modify i g).map f = l.map f := by
  refine List.ext_getElem? fun j => ?_
  simp only [List.getElem?_map, List.getElem?_modify]
  by_cases hij : i = j
  · cases l[j]? <;> simp [hij, h]
  · cases l[j]? <;> simp [hij]

@[simp] theorem Psbt.unsignedTx_insert (psbt : Psbt K) (inputIdx : Nat) (insertion : Insertion K) :
    (psbt.insert inputIdx insertion).unsignedTx = psbt.unsignedTx := rfl

@[simp] theorem Psbt.unsigned_insert (psbt : Psbt K) (inputIdx : Nat) (insertion : Insertion K) :
    (psbt.insert inputIdx insertion).unsigned = psbt.unsigned := by
  simp only [Psbt.unsigned, Psbt.insert]
  rw [map_modify_of_eq _ _ fun input => input.unsigned_insert insertion]

@[simp] theorem Pset.unsigned_insert (elements : ElementsCrate K D X) (pset : Pset K) (inputIdx : Nat)
    (insertion : Insertion K) :
    (pset.insert elements inputIdx insertion).unsigned = pset.unsigned := by
  simp only [Pset.unsigned, Pset.insert]
  rw [map_modify_of_eq _ _ fun input => input.unsigned_insert elements insertion]

namespace Pkcs11Signer

variable (signer : Pkcs11Signer K D) (crates : Crates D) (elements : ElementsCrate K D X)

theorem allPrevouts_unsigned (psbt : Psbt K) : allPrevouts psbt.unsigned = allPrevouts psbt := by
  simp only [allPrevouts, Psbt.unsigned, List.zipIdx_map, List.mapM_map]
  rfl

theorem inputAgenda_unsigned (psbt : Psbt K) (inputIdx : Nat) :
    signer.inputAgenda crates psbt.unsigned inputIdx = signer.inputAgenda crates psbt inputIdx := by
  have hprevouts := allPrevouts_unsigned psbt
  unfold inputAgenda
  rw [Psbt.unsigned] at hprevouts ⊢
  simp only [List.getElem?_map]
  cases psbt.inputs[inputIdx]? with
  | none => rfl
  | some input =>
      simp only [Option.map_some, taprootAgenda, leavesAgenda, tapContext, hprevouts]
      rfl

theorem agenda_unsigned (psbt : Psbt K) : signer.agenda crates psbt.unsigned = signer.agenda crates psbt := by
  rw [agenda, agenda, funext (signer.inputAgenda_unsigned crates psbt), Psbt.unsigned, List.length_map]

/-- PSBTs that differ in signatures only ask for the same. -/
theorem inputAgenda_congr {psbt psbt' : Psbt K} (h : psbt'.unsigned = psbt.unsigned) (inputIdx : Nat) :
    signer.inputAgenda crates psbt' inputIdx = signer.inputAgenda crates psbt inputIdx := by
  rw [← inputAgenda_unsigned, h, inputAgenda_unsigned]

theorem agenda_congr {psbt psbt' : Psbt K} (h : psbt'.unsigned = psbt.unsigned) :
    signer.agenda crates psbt' = signer.agenda crates psbt := by
  rw [← agenda_unsigned, h, agenda_unsigned]

theorem psetInputAgenda_unsigned (unsignedTx : X) (pset : Pset K) (inputIdx : Nat) :
    signer.psetInputAgenda elements unsignedTx pset.unsigned inputIdx =
      signer.psetInputAgenda elements unsignedTx pset inputIdx := by
  unfold psetInputAgenda
  simp only [Pset.unsigned, List.getElem?_map]
  cases pset.inputs[inputIdx]? <;> rfl

theorem psetInputsAgenda_unsigned (unsignedTx : X) (pset : Pset K) :
    signer.psetInputsAgenda elements unsignedTx pset.unsigned =
      signer.psetInputsAgenda elements unsignedTx pset := by
  rw [psetInputsAgenda, psetInputsAgenda,
    funext (signer.psetInputAgenda_unsigned elements unsignedTx pset), Pset.unsigned, List.length_map]

theorem psetInputAgenda_congr {pset pset' : Pset K} (h : pset'.unsigned = pset.unsigned)
    (unsignedTx : X) (inputIdx : Nat) :
    signer.psetInputAgenda elements unsignedTx pset' inputIdx =
      signer.psetInputAgenda elements unsignedTx pset inputIdx := by
  rw [← psetInputAgenda_unsigned, h, psetInputAgenda_unsigned]

/-- PSETs that differ in signatures only ask for the same, if `extract_tx` reads no signature. -/
theorem psetAgenda_congr (hextract : ∀ pset, elements.extractTx pset.unsigned = elements.extractTx pset)
    {pset pset' : Pset K} (h : pset'.unsigned = pset.unsigned) :
    signer.psetAgenda elements pset' = signer.psetAgenda elements pset := by
  have hsame : elements.extractTx pset' = elements.extractTx pset := by
    rw [← hextract pset', h, hextract]
  simp only [psetAgenda, hsame]
  cases elements.extractTx pset with
  | error e => rfl
  | ok unsignedTx =>
      dsimp only
      rw [← psetInputsAgenda_unsigned, h, psetInputsAgenda_unsigned]

end Pkcs11Signer

end EmvaultPkcs11
