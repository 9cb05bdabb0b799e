import EmvaultPkcs11.Backend
import EmvaultPkcs11.Policy

/-! The signer and its Bitcoin signing path (signer.rs): how a signer is made, and what
`sign_transaction` does to the PSBT it is handed. A call runs in a state with the token, the PSBT as
it is so far, whether the signer's mutex is poisoned, and a log of the signatures put into the PSBT,
each with the time the host's clock showed. No code reads the log. -/

open Effect

namespace EmvaultPkcs11

/-- `miniscript::descriptor::Wildcard`. -/
inductive Wildcard where
  | none | unhardened | hardened
  deriving DecidableEq

/-- `DescriptorPublicKey::XPub`. -/
structure DescriptorXKey where
  origin : Option KeySource
  xkey : Xpub
  derivationPath : DerivationPath
  wildcard : Wildcard
  deriving DecidableEq

inductive TransportType where
  | pkcs11
  deriving DecidableEq

structure SignerCapabilities where
  blindSigning : Bool
  taproot : Bool
  musig2 : Bool
  transports : List TransportType
  deriving DecidableEq

/-- `SignerId::from_fingerprint`. -/
structure SignerId where
  fingerprint : Fingerprint
  deriving DecidableEq

structure Pkcs11Signer (K D : Type) where
  label : String
  id : SignerId
  fingerprint : Fingerprint
  derivationPath : DerivationPath
  xpub : Xpub
  network : Network
  capabilities : SignerCapabilities
  descriptorKey : DescriptorXKey
  loaded : LoadedKey
  backend : HsmBackend K D

variable {K D : Type}

def buildDescriptorKey (xpub : Xpub) (fingerprint : Fingerprint) (derivationPath : DerivationPath) :
    DescriptorXKey where
  origin := some (fingerprint, derivationPath)
  xkey := xpub
  derivationPath := []
  wildcard := .unhardened

namespace Pkcs11Signer

def fromLoaded (label : String) (loaded : LoadedKey) (xpub : Xpub) (fingerprint : Fingerprint)
    (derivationPath : DerivationPath) (network : Network) (backend : HsmBackend K D) :
    Pkcs11Signer K D where
  label := label
  id := ⟨fingerprint⟩
  fingerprint := fingerprint
  derivationPath := derivationPath
  xpub := xpub
  network := network
  capabilities :=
    { blindSigning := true, taproot := backend.taprootSigner.isSome, musig2 := false,
      transports := [.pkcs11] }
  descriptorKey := buildDescriptorKey xpub fingerprint derivationPath
  loaded := loaded
  backend := backend

/-- `map_err(Pkcs11Error::from)` on a call of the backend. -/
def fromBackend {α : Type} (p : TokenProgram K D HsmBackendError α) : TokenProgram K D Pkcs11Error α :=
  p.mapError (Stop.map .hsmBackend)

/-- The key ceremony. -/
def deriveFromSeed (label : String) (derivationPath : DerivationPath) (network : Network)
    (backend : HsmBackend K D) (seed : Bytes) : TokenProgram K D Pkcs11Error (Pkcs11Signer K D) := do
  let master ← fromBackend (backend.deriveMasterKey seed (privLabel label))
  let finalHandle ← fromBackend (backend.derivePath master.keyHandle derivationPath)
  let xpub ← fromBackend (backend.readXpub finalHandle)
  pure (fromLoaded label ⟨finalHandle⟩ xpub master.fingerprint derivationPath network backend)

/-- The operational path. -/
def load (label : String) (derivationPath : DerivationPath) (network : Network)
    (backend : HsmBackend K D) : TokenProgram K D Pkcs11Error (Pkcs11Signer K D) := do
  let found ← findKeyByLabel label
  match found with
  | none => throw (.err (.objectNotFound s!"key with label {label}"))
  | some loaded => do
      let xpub ← fromBackend (backend.readXpub loaded.privateKey)
      let fingerprint ← fromBackend (backend.masterFingerprint loaded.privateKey)
      pure (fromLoaded label loaded xpub fingerprint derivationPath network backend)

end Pkcs11Signer

/-! ### The state of a signing call -/

/-- A signature put into an input map, with the time it was put there. -/
structure Written (K : Type) where
  inputIdx : Nat
  insertion : Insertion K
  time : Nat
  deriving DecidableEq

/-- The state of a signing call on a transaction of type `T` (a PSBT or a PSET). -/
structure SignState (K T : Type) where
  machine : Machine K
  poisoned : Bool
  transaction : T
  written : List (Written K)

abbrev SignM (K T ε α : Type) := EStateM (Stop ε) (SignState K T) α

variable {T ε α : Type}

/-- Run a token program in the signer's session, with its errors as `wrap` converts them. -/
def onToken {ε' : Type} (hsm : Hsm K D) (wrap : ε' → ε) (p : TokenProgram K D ε' α) :
    SignM K T ε α :=
  mapErr wrap (onPart SignState.machine (fun m s => { s with machine := m })
    (Program.run hsm.exec p))

/-- Put a signature into the transaction. -/
def putSignature (hsm : Hsm K D) (insert : T → Nat → Insertion K → T) (inputIdx : Nat)
    (insertion : Insertion K) : SignM K T ε Unit :=
  modify fun s => { s with
    transaction := insert s.transaction inputIdx insertion
    written := s.written ++ [⟨inputIdx, insertion, hsm.clock s.machine.calls⟩] }

/-- Hold the signer's mutex around a call: a poisoned mutex refuses the call, and a panic inside the
call poisons it. -/
def withLock (refusal : ε) (body : SignM K T ε α) : SignM K T ε α := fun s =>
  if s.poisoned then .error (.err refusal) s
  else
    match body.run s with
    | .error (.panic message) s' => .error (.panic message) { s' with poisoned := true }
    | result => result

/-! ### One signature -/

/-- What an input asks an ECDSA signer for. -/
structure EcdsaRequest (D : Type) where
  publicKey : BitcoinPublicKey
  relativePath : DerivationPath
  sighashType : EcdsaSighashType
  sighash : D

namespace Pkcs11Signer

variable (signer : Pkcs11Signer K D) (crates : Crates D) (hsm : Hsm K D)

/-- The handle that signs for a path below the federation key: the federation handle itself, or a
key derived for this signature. -/
def signingHandle (fail : String → ε) (relativePath : DerivationPath) : SignM K T ε ObjectHandle :=
  if relativePath.isEmpty then pure signer.loaded.privateKey
  else onToken hsm (fun e => fail (e.toText crates))
    (signer.backend.derivePath signer.loaded.privateKey relativePath)

/-- Destroy a key derived for one signature. A failure is ignored. -/
def destroyChild (handle : ObjectHandle) : SignM K T ε Unit :=
  if handle ≠ signer.loaded.privateKey then
    onToken hsm (fun e : ε => e) (Session.tryDestroyObject handle)
  else pure ()

/-- Route a request through the backend's ECDSA signer. -/
def signSegwit (fail : String → ε) (handle : ObjectHandle) (sighash : D) :
    SignM K T ε (Signature K) :=
  match signer.backend.segwitSigner with
  | some s => onToken hsm (fun e => fail (e.toText crates)) (s.signEcdsa handle sighash)
  | none => throw (.err (fail
      s!"backend `{signer.backend.backendName}` does not support SegWit (ECDSA) signing"))

/-- From the request of an input to a low-S signature, the same in both signing paths. The child key
is destroyed before the result of signing is looked at. -/
def signRequest (fail : String → ε) (request : EcdsaRequest D) : SignM K T ε (Signature K) := do
  let handle ← signer.signingHandle crates hsm fail request.relativePath
  let signResult ← attempt (signer.signSegwit crates hsm fail handle request.sighash)
  signer.destroyChild hsm handle
  let sig ← orErr signResult
  pure { sig with bytes := crates.normalizeS sig.bytes }

/-! ### P2WSH inputs -/

/-- The first key-origin entry, in key order, with this signer's fingerprint. -/
def ourOrigin (input : Input K) : Option (PublicKey × DerivationPath) :=
  (input.bip32Derivation.toList.find? fun entry => entry.2.1 = signer.fingerprint).map
    fun entry => (entry.1, entry.2.2)

/-- The path below the federation key: as many segments dropped as the federation path has. -/
def relativePath (message : String) (path : DerivationPath) : Except BdkSignerError DerivationPath :=
  if path.length < signer.derivationPath.length then .error (.external message)
  else .ok (path.drop signer.derivationPath.length)

/-- The sighash type an input asks for, `ALL` where it asks for none. -/
def wshSighashType (input : Input K) : Except BdkSignerError EcdsaSighashType :=
  match input.sighashType with
  | none => .ok .all
  | some value => (EcdsaSighashType.fromStandard value).mapError fun e =>
      .external s!"invalid sighash type: {crates.foreignText e}"

def orExternal (message : String) : Option α → Except BdkSignerError α
  | some a => .ok a
  | none => .error (.external message)

/-- What a P2WSH input asks this signer for, if anything. -/
def wshRequest (tx : Transaction) (inputIdx : Nat) (input : Input K) :
    Except BdkSignerError (Option (EcdsaRequest D)) :=
  match signer.ourOrigin input with
  | none => .ok none
  | some (ourPk, inputPath) => do
      let relativePath ← signer.relativePath
        (s!"input {inputIdx} BIP-32 path {displayPath inputPath} is shorter than this signer's " ++
          s!"federation path {displayPath signer.derivationPath}")
        inputPath
      let sighashType ← wshSighashType crates input
      let witnessScript ← orExternal
        s!"input {inputIdx} missing witness_script (only P2WSH multi-sig is supported by Pkcs11Signer in v1)"
        input.witnessScript
      let witnessUtxo ← orExternal s!"input {inputIdx} missing witness_utxo" input.witnessUtxo
      let message ← (p2wshSignatureMessage tx inputIdx witnessScript witnessUtxo.value
        sighashType).mapError fun e => .external s!"sighash failure: {crates.foreignText e}"
      return some ⟨.new ourPk, relativePath, sighashType, crates.digest (.segwitV0 message)⟩

def signWshInput (inputIdx : Nat) (input : Input K) : SignM K (Psbt K) BdkSignerError Bool := do
  let psbt := (← get).transaction
  let request ← orErr (signer.wshRequest crates psbt.unsignedTx inputIdx input)
  match request with
  | none => pure false
  | some request => do
      let sig ← signer.signRequest crates hsm .external request
      putSignature hsm Psbt.insert inputIdx (.partialSig request.publicKey ⟨sig, request.sighashType⟩)
      pure true

/-! ### Taproot inputs -/

/-- The first taproot key-origin entry, in key order, with this signer's fingerprint. -/
def ourTapOrigin (input : Input K) :
    Option (XOnlyPublicKey × List TapLeafHash × DerivationPath) :=
  (input.tapKeyOrigins.toList.find? fun entry => entry.2.2.1 = signer.fingerprint).map
    fun entry => (entry.1, entry.2.1, entry.2.2.2)

/-- The outputs all inputs spend. -/
def allPrevouts (psbt : Psbt K) : Except BdkSignerError (List TxOut) :=
  psbt.inputs.zipIdx.mapM fun entry => orExternal
    s!"input {entry.2} missing witness_utxo (taproot sighash needs all prevouts)" entry.1.witnessUtxo

/-- The sighash type a taproot input asks for, `DEFAULT` where it asks for none. -/
def tapSighashType (input : Input K) : Except BdkSignerError TapSighashType :=
  match input.sighashType with
  | none => .ok .default
  | some value => (TapSighashType.fromPsbt value).mapError fun e =>
      .external s!"invalid taproot sighash type: {crates.foreignText e}"

/-- The sighash of one leaf. -/
def leafSighash (tx : Transaction) (inputIdx : Nat) (prevouts : List TxOut) (leafHash : TapLeafHash)
    (sighashType : TapSighashType) : Except BdkSignerError D :=
  match taprootScriptSpendMessage tx inputIdx prevouts leafHash sighashType with
  | .ok message => .ok (crates.digest (.taproot message))
  | .error e => .error (.external s!"taproot sighash failure: {crates.foreignText e}")

/-- One round of the leaf loop. -/
def signLeaf (taprootSigner : TaprootSigner K D) (inputIdx : Nat) (prevouts : List TxOut)
    (sighashType : TapSighashType) (handle : ObjectHandle) (ourXonly : XOnlyPublicKey)
    (fullPath : DerivationPath) (leafHash : TapLeafHash) : SignM K (Psbt K) BdkSignerError Unit := do
  let psbt := (← get).transaction
  let sighash ← orErr
    (leafSighash crates psbt.unsignedTx inputIdx prevouts leafHash sighashType)
  let signature ← onToken hsm (fun e => .external (e.toText crates))
    (taprootSigner.signSchnorr handle signer.label fullPath sighash)
  putSignature hsm Psbt.insert inputIdx (.tapScriptSig ourXonly leafHash ⟨signature, sighashType⟩)

/-- The part of a taproot input that needs the token: derive the key, gather what the sighash commits
to, sign leaf by leaf, destroy the key. -/
def signLeaves (taprootSigner : TaprootSigner K D) (inputIdx : Nat) (input : Input K)
    (relativePath : DerivationPath) (ourXonly : XOnlyPublicKey) (leafHashes : List TapLeafHash)
    (fullPath : DerivationPath) : SignM K (Psbt K) BdkSignerError Bool := do
  let handle ← signer.signingHandle crates hsm .external relativePath
  let psbt := (← get).transaction
  let prevouts ← orErr (allPrevouts psbt)
  let sighashType ← orErr (tapSighashType crates input)
  let signed ← leafHashes.foldlM (fun _ leafHash => do
    signer.signLeaf crates hsm taprootSigner inputIdx prevouts sighashType handle ourXonly fullPath
      leafHash
    pure true) false
  signer.destroyChild hsm handle
  pure signed

def signTaprootInput (inputIdx : Nat) (input : Input K) : SignM K (Psbt K) BdkSignerError Bool :=
  match signer.ourTapOrigin input with
  | none => pure false
  | some (ourXonly, leafHashes, fullPath) =>
      if leafHashes.isEmpty then pure false
      else
        match signer.backend.taprootSigner with
        | none => throw (.err (.external
            s!"backend `{signer.backend.backendName}` does not support Taproot (Schnorr) signing"))
        | some taprootSigner => do
            let relativePath ← orErr (signer.relativePath
              (s!"input {inputIdx} taproot BIP-32 path {displayPath fullPath} is shorter than this signer's " ++
                s!"federation path {displayPath signer.derivationPath}")
              fullPath)
            signer.signLeaves crates hsm taprootSigner inputIdx input relativePath ourXonly leafHashes
              fullPath

/-! ### The call -/

/-- Which inputs go through the Schnorr path. -/
def isTaproot (input : Input K) : Bool :=
  input.tapInternalKey.isSome || !input.tapScripts.isEmpty

/-- One round of the input loop. -/
def signInput (inputIdx : Nat) : SignM K (Psbt K) BdkSignerError Bool := do
  let psbt := (← get).transaction
  match psbt.inputs[inputIdx]? with
  | none => throw (.panic "index out of bounds")
  | some input =>
      if isTaproot input then signer.signTaprootInput crates hsm inputIdx input
      else signer.signWshInput crates hsm inputIdx input

/-- The part of `sign_transaction` before the signature rate is recorded: load the policy, check the
transaction, sign the inputs. -/
def signInputs (serde : Serde) : SignM K (Psbt K) BdkSignerError (MinimalHsmPolicy × Bool) := do
  let policy ← onToken hsm (fun e => .external (e.toText crates)) (loadPolicy serde signer.label)
  let psbt := (← get).transaction
  ofResult ((policy.checkAgainstPsbt crates psbt signer.network).mapError
    (Stop.map fun e => .external (e.toText crates)))
  let signedAny ← (List.range psbt.inputs.length).foldlM (fun signedAny inputIdx => do
    let signed ← signer.signInput crates hsm inputIdx
    pure (signedAny || signed)) false
  pure (policy, signedAny)

/-- The last step of both signing paths. -/
def recordIfSigned (serde : Serde) (fail : String → ε) (policy : MinimalHsmPolicy) (signedAny : Bool) :
    SignM K T ε Unit :=
  if signedAny then
    onToken hsm (fun e => fail (e.toText crates)) (checkAndRecordSigrate serde signer.label policy)
  else pure ()

/-- `<Pkcs11Signer as TransactionSigner>::sign_transaction`. -/
def signTransaction (serde : Serde) : SignM K (Psbt K) BdkSignerError Unit :=
  withLock (.external "Pkcs11Signer mutex poisoned") do
    let (policy, signedAny) ← signer.signInputs crates hsm serde
    signer.recordIfSigned crates hsm serde .external policy signedAny

end Pkcs11Signer

end EmvaultPkcs11
