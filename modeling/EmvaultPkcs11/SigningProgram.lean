import EmvaultPkcs11.Elements
import EmvaultPkcs11.LibraryCalls

/-! The signing calls as programs: the same steps as in `Signer` and `Elements`, with the calls to the token as a tree
and the transaction passed along, so that signing calls of several sessions can take turns on the token. Run alone,
each program does what the signing call does, and neither touches the mutex. -/

open Effect

namespace EmvaultPkcs11

variable {K D X T ε α : Type}

/-- A part of a signing call on a transaction of type `T`, as the calls it makes. -/
abbrev SignCalls (K D T ε α : Type) := CallM (Session K D) T ε α

namespace CallsOf

variable (signer : Pkcs11Signer K D) (crates : Crates D) (elements : ElementsCrate K D X) (serde : Serde)

/-! ### One signature -/

def signingHandle (fail : String → ε) (relativePath : DerivationPath) : SignCalls K D T ε ObjectHandle :=
  if relativePath.isEmpty then pure signer.loaded.privateKey
  else CallM.calls (fun e => fail (e.toText crates))
    (signer.backend.derivePath signer.loaded.privateKey relativePath)

def destroyChild (handle : ObjectHandle) : SignCalls K D T ε Unit :=
  if handle ≠ signer.loaded.privateKey then
    CallM.calls (fun e : ε => e) (Session.tryDestroyObject handle)
  else pure ()

def signSegwit (fail : String → ε) (handle : ObjectHandle) (sighash : D) : SignCalls K D T ε (Signature K) :=
  match signer.backend.segwitSigner with
  | some s => CallM.calls (fun e => fail (e.toText crates)) (s.signEcdsa handle sighash)
  | none => CallM.ofResult (.error (.err (fail
      s!"backend `{signer.backend.backendName}` does not support SegWit (ECDSA) signing")))

def signRequest (fail : String → ε) (request : EcdsaRequest D) : SignCalls K D T ε (Signature K) := do
  let handle ← signingHandle signer crates fail request.relativePath
  let signResult ← CallM.attempt (signSegwit signer crates fail handle request.sighash)
  destroyChild signer handle
  let sig ← CallM.orErr signResult
  pure { sig with bytes := crates.normalizeS sig.bytes }

/-! ### PSBTs -/

def signWshInput (inputIdx : Nat) (input : Input K) : SignCalls K D (Psbt K) BdkSignerError Bool := do
  let psbt ← CallM.current
  let request ← CallM.orErr (signer.wshRequest crates psbt.unsignedTx inputIdx input)
  match request with
  | none => pure false
  | some request => do
      let sig ← signRequest signer crates .external request
      CallM.update fun psbt => psbt.insert inputIdx (.partialSig request.publicKey ⟨sig, request.sighashType⟩)
      pure true

def signLeaf (taprootSigner : TaprootSigner K D) (inputIdx : Nat) (prevouts : List TxOut)
    (sighashType : TapSighashType) (handle : ObjectHandle) (ourXonly : XOnlyPublicKey) (fullPath : DerivationPath)
    (leafHash : TapLeafHash) : SignCalls K D (Psbt K) BdkSignerError Unit := do
  let psbt ← CallM.current
  let sighash ← CallM.orErr (Pkcs11Signer.leafSighash crates psbt.unsignedTx inputIdx prevouts leafHash sighashType)
  let signature ← CallM.calls (fun e => .external (e.toText crates))
    (taprootSigner.signSchnorr handle signer.label fullPath sighash)
  CallM.update fun psbt => psbt.insert inputIdx (.tapScriptSig ourXonly leafHash ⟨signature, sighashType⟩)

def signLeaves (taprootSigner : TaprootSigner K D) (inputIdx : Nat) (input : Input K)
    (relativePath : DerivationPath) (ourXonly : XOnlyPublicKey) (leafHashes : List TapLeafHash)
    (fullPath : DerivationPath) : SignCalls K D (Psbt K) BdkSignerError Bool := do
  let handle ← signingHandle signer crates .external relativePath
  let psbt ← CallM.current
  let prevouts ← CallM.orErr (Pkcs11Signer.allPrevouts psbt)
  let sighashType ← CallM.orErr (Pkcs11Signer.tapSighashType crates input)
  let signed ← leafHashes.foldlM (fun _ leafHash => do
    signLeaf signer crates taprootSigner inputIdx prevouts sighashType handle ourXonly fullPath leafHash
    pure true) false
  destroyChild signer handle
  pure signed

def signTaprootInput (inputIdx : Nat) (input : Input K) : SignCalls K D (Psbt K) BdkSignerError Bool :=
  match signer.ourTapOrigin input with
  | none => pure false
  | some (ourXonly, leafHashes, fullPath) =>
      if leafHashes.isEmpty then pure false
      else
        match signer.backend.taprootSigner with
        | none => CallM.ofResult (.error (.err (.external
            s!"backend `{signer.backend.backendName}` does not support Taproot (Schnorr) signing")))
        | some taprootSigner => do
            let relativePath ← CallM.orErr (signer.relativePath
              (s!"input {inputIdx} taproot BIP-32 path {displayPath fullPath} is shorter than this signer's " ++
                s!"federation path {displayPath signer.derivationPath}")
              fullPath)
            signLeaves signer crates taprootSigner inputIdx input relativePath ourXonly leafHashes fullPath

def signInput (inputIdx : Nat) : SignCalls K D (Psbt K) BdkSignerError Bool := do
  let psbt ← CallM.current
  match psbt.inputs[inputIdx]? with
  | none => CallM.ofResult (.error (.panic "index out of bounds"))
  | some input =>
      if Pkcs11Signer.isTaproot input then signTaprootInput signer crates inputIdx input
      else signWshInput signer crates inputIdx input

def signInputs : SignCalls K D (Psbt K) BdkSignerError (MinimalHsmPolicy × Bool) := do
  let policy ← CallM.calls (fun e => .external (e.toText crates)) (loadPolicy serde signer.label)
  let psbt ← CallM.current
  CallM.ofResult ((policy.checkAgainstPsbt crates psbt signer.network).mapError
    (Stop.map fun e => .external (e.toText crates)))
  let signedAny ← (List.range psbt.inputs.length).foldlM (fun signedAny inputIdx => do
    let signed ← signInput signer crates inputIdx
    pure (signedAny || signed)) false
  pure (policy, signedAny)

def recordIfSigned (fail : String → ε) (policy : MinimalHsmPolicy) (signedAny : Bool) : SignCalls K D T ε Unit :=
  if signedAny then
    CallM.calls (fun e => fail (e.toText crates)) (checkAndRecordSigrate serde signer.label policy)
  else pure ()

/-- What `sign_transaction` does while it holds the lock. -/
def signTransaction : SignCalls K D (Psbt K) BdkSignerError Unit := do
  let (policy, signedAny) ← signInputs signer crates serde
  recordIfSigned signer crates serde .external policy signedAny

/-! ### PSETs -/

def signPsetInput (unsignedTx : X) (inputIdx : Nat) : SignCalls K D (Pset K) PsetError Bool := do
  let pset ← CallM.current
  match pset.inputs[inputIdx]? with
  | none => CallM.ofResult (.error (.panic "index out of bounds"))
  | some input => do
      let request ← CallM.orErr (signer.psetRequest elements unsignedTx inputIdx input)
      match request with
      | none => pure false
      | some request => do
          let sig ← signRequest signer crates .signerBackend request
          CallM.update fun pset =>
            pset.insert elements inputIdx (.partialSig request.publicKey ⟨sig, request.sighashType⟩)
          pure true

def signPsetInputs : SignCalls K D (Pset K) PsetError (MinimalHsmPolicy × Nat) := do
  let policy ← CallM.calls (fun e => .signerBackend (e.toText crates)) (loadPolicy serde signer.label)
  let pset ← CallM.current
  let unsignedTx ← CallM.orErr ((elements.extractTx pset).mapError .elements)
  let signed ← (List.range pset.inputs.length).foldlM (fun signed inputIdx => do
    let one ← signPsetInput signer crates elements unsignedTx inputIdx
    pure (if one then signed + 1 else signed)) 0
  pure (policy, signed)

/-- What `sign_pset` does while it holds the lock. -/
def signPset : SignCalls K D (Pset K) PsetError Nat := do
  let (policy, signed) ← signPsetInputs signer crates elements serde
  recordIfSigned signer crates serde .signerBackend policy (0 < signed)
  pure signed

end CallsOf

/-! ### The programs do what the calls do -/

/-- The calls, run alone on the token, do what the part of a signing call does, which leaves the mutex alone. -/
def RealizesSigning (hsm : Hsm K D) (calls : SignCalls K D T ε α) (x : SignM K T ε α) : Prop :=
  CallM.Realizes (I := Session K D) hsm.exec SignState.machine SignState.transaction SignState.poisoned calls x

section

variable {signer : Pkcs11Signer K D} {crates : Crates D} {elements : ElementsCrate K D X} {serde : Serde}
  {hsm : Hsm K D}

theorem realizes_onToken {ε' : Type} (wrap : ε' → ε) (p : TokenProgram K D ε' α) :
    RealizesSigning hsm (CallM.calls wrap p : SignCalls K D T ε α) (onToken hsm wrap p) := by
  have hmachine (m : Machine K) (s : SignState K T) : ({ s with machine := m } : SignState K T).machine = m := rfl
  have htransaction (m : Machine K) (s : SignState K T) :
      ({ s with machine := m } : SignState K T).transaction = s.transaction := rfl
  exact CallM.Realizes.calls hmachine htransaction (fun _ _ => rfl) wrap p

theorem realizes_putSignature (insert : T → Nat → Insertion K → T) (inputIdx : Nat) (insertion : Insertion K) :
    RealizesSigning hsm (CallM.update fun t => insert t inputIdx insertion : SignCalls K D T ε Unit)
      (putSignature hsm insert inputIdx insertion) :=
  CallM.Realizes.update (fun _ => rfl) (fun _ => rfl) fun _ => rfl

theorem realizes_signingHandle (fail : String → ε) (relativePath : DerivationPath) :
    RealizesSigning hsm (CallsOf.signingHandle signer crates fail relativePath : SignCalls K D T ε _)
      (signer.signingHandle crates hsm fail relativePath) := by
  unfold CallsOf.signingHandle Pkcs11Signer.signingHandle
  split
  · exact CallM.Realizes.pure _
  · exact realizes_onToken _ _

theorem realizes_destroyChild (handle : ObjectHandle) :
    RealizesSigning hsm (CallsOf.destroyChild signer handle : SignCalls K D T ε _)
      (signer.destroyChild hsm handle) := by
  unfold CallsOf.destroyChild Pkcs11Signer.destroyChild
  split
  · exact realizes_onToken _ _
  · exact CallM.Realizes.pure _

theorem realizes_signSegwit (fail : String → ε) (handle : ObjectHandle) (sighash : D) :
    RealizesSigning hsm (CallsOf.signSegwit signer crates fail handle sighash : SignCalls K D T ε _)
      (signer.signSegwit crates hsm fail handle sighash) := by
  unfold CallsOf.signSegwit Pkcs11Signer.signSegwit
  cases signer.backend.segwitSigner with
  | some segwit => exact realizes_onToken _ _
  | none => exact CallM.Realizes.throw _

theorem realizes_signRequest (fail : String → ε) (request : EcdsaRequest D) :
    RealizesSigning hsm (CallsOf.signRequest signer crates fail request : SignCalls K D T ε _)
      (signer.signRequest crates hsm fail request) := by
  refine (realizes_signingHandle fail _).bind fun handle => ?_
  refine (CallM.Realizes.attempt (realizes_signSegwit fail handle _)).bind fun signResult => ?_
  refine (realizes_destroyChild handle).bind fun _ => ?_
  exact (CallM.Realizes.orErr signResult).bind fun sig => CallM.Realizes.pure _

theorem realizes_signWshInput (inputIdx : Nat) (input : Input K) :
    RealizesSigning hsm (CallsOf.signWshInput signer crates inputIdx input)
      (signer.signWshInput crates hsm inputIdx input) := by
  refine CallM.Realizes.current_bind fun s => ?_
  refine (CallM.Realizes.orErr _).bind fun request => ?_
  cases request with
  | none => exact CallM.Realizes.pure false
  | some request =>
      refine (realizes_signRequest _ request).bind fun sig => ?_
      exact (realizes_putSignature _ _ _).bind fun _ => CallM.Realizes.pure true

theorem realizes_signLeaves (taprootSigner : TaprootSigner K D) (inputIdx : Nat) (input : Input K)
    (relativePath : DerivationPath) (ourXonly : XOnlyPublicKey) (leafHashes : List TapLeafHash)
    (fullPath : DerivationPath) :
    RealizesSigning hsm
      (CallsOf.signLeaves signer crates taprootSigner inputIdx input relativePath ourXonly leafHashes fullPath)
      (signer.signLeaves crates hsm taprootSigner inputIdx input relativePath ourXonly leafHashes fullPath) := by
  refine (realizes_signingHandle _ _).bind fun handle => ?_
  refine CallM.Realizes.current_bind fun s => ?_
  refine (CallM.Realizes.orErr _).bind fun prevouts => ?_
  refine (CallM.Realizes.orErr _).bind fun sighashType => ?_
  have hleaf (signed : Bool) (leafHash : TapLeafHash) : RealizesSigning hsm (do
        CallsOf.signLeaf signer crates taprootSigner inputIdx prevouts sighashType handle ourXonly fullPath leafHash
        pure true : SignCalls K D (Psbt K) BdkSignerError Bool)
      (do
        signer.signLeaf crates hsm taprootSigner inputIdx prevouts sighashType handle ourXonly fullPath leafHash
        pure true) := by
    have hsign : RealizesSigning hsm
        (CallsOf.signLeaf signer crates taprootSigner inputIdx prevouts sighashType handle ourXonly fullPath leafHash)
        (signer.signLeaf crates hsm taprootSigner inputIdx prevouts sighashType handle ourXonly fullPath leafHash) := by
      refine CallM.Realizes.current_bind fun s => ?_
      refine (CallM.Realizes.orErr _).bind fun sighash => ?_
      exact (realizes_onToken _ _).bind fun signature => realizes_putSignature _ _ _
    exact CallM.Realizes.bind hsign fun _ => CallM.Realizes.pure true
  refine (CallM.Realizes.foldlM hleaf leafHashes false).bind fun signed => ?_
  exact (realizes_destroyChild handle).bind fun _ => CallM.Realizes.pure signed

theorem realizes_signTaprootInput (inputIdx : Nat) (input : Input K) :
    RealizesSigning hsm (CallsOf.signTaprootInput signer crates inputIdx input)
      (signer.signTaprootInput crates hsm inputIdx input) := by
  unfold CallsOf.signTaprootInput Pkcs11Signer.signTaprootInput
  cases signer.ourTapOrigin input with
  | none => exact CallM.Realizes.pure false
  | some origin =>
      obtain ⟨ourXonly, leafHashes, fullPath⟩ := origin
      dsimp only
      by_cases hempty : leafHashes.isEmpty
      · rw [if_pos hempty, if_pos hempty]
        exact CallM.Realizes.pure false
      · rw [if_neg hempty, if_neg hempty]
        cases signer.backend.taprootSigner with
        | none => exact CallM.Realizes.throw _
        | some taprootSigner =>
            exact (CallM.Realizes.orErr _).bind fun relativePath => realizes_signLeaves _ _ _ _ _ _ _

theorem realizes_signInput (inputIdx : Nat) :
    RealizesSigning hsm (CallsOf.signInput signer crates inputIdx) (signer.signInput crates hsm inputIdx) := by
  refine CallM.Realizes.current_bind fun s => ?_
  dsimp only
  cases s.transaction.inputs[inputIdx]? with
  | none => exact CallM.Realizes.throw _
  | some input =>
      dsimp only
      by_cases htaproot : Pkcs11Signer.isTaproot input
      · rw [if_pos htaproot, if_pos htaproot]
        exact realizes_signTaprootInput inputIdx input
      · rw [if_neg htaproot, if_neg htaproot]
        exact realizes_signWshInput inputIdx input

theorem realizes_recordIfSigned (fail : String → ε) (policy : MinimalHsmPolicy) (signedAny : Bool) :
    RealizesSigning hsm (CallsOf.recordIfSigned signer crates serde fail policy signedAny : SignCalls K D T ε Unit)
      (signer.recordIfSigned crates hsm serde fail policy signedAny) := by
  unfold CallsOf.recordIfSigned Pkcs11Signer.recordIfSigned
  split
  · exact realizes_onToken _ _
  · exact CallM.Realizes.pure ()

theorem realizes_signInputs :
    RealizesSigning hsm (CallsOf.signInputs signer crates serde) (signer.signInputs crates hsm serde) := by
  refine (realizes_onToken _ _).bind fun policy => ?_
  refine CallM.Realizes.current_bind fun s => ?_
  refine (CallM.Realizes.ofResult _).bind fun _ => ?_
  refine CallM.Realizes.bind (CallM.Realizes.foldlM (fun signedAny inputIdx => ?_) _ false)
    fun signedAny => CallM.Realizes.pure _
  exact (realizes_signInput inputIdx).bind fun signed => CallM.Realizes.pure _

theorem realizes_signTransaction :
    RealizesSigning hsm (CallsOf.signTransaction signer crates serde) (do
      let (policy, signedAny) ← signer.signInputs crates hsm serde
      signer.recordIfSigned crates hsm serde .external policy signedAny) :=
  CallM.Realizes.bind realizes_signInputs fun result => realizes_recordIfSigned _ result.1 result.2

theorem realizes_signPsetInput (unsignedTx : X) (inputIdx : Nat) :
    RealizesSigning hsm (CallsOf.signPsetInput signer crates elements unsignedTx inputIdx)
      (signer.signPsetInput crates elements hsm unsignedTx inputIdx) := by
  refine CallM.Realizes.current_bind fun s => ?_
  dsimp only
  cases s.transaction.inputs[inputIdx]? with
  | none => exact CallM.Realizes.throw _
  | some input =>
      refine CallM.Realizes.bind (CallM.Realizes.orErr _) fun request => ?_
      cases request with
      | none => exact CallM.Realizes.pure false
      | some request =>
          refine (realizes_signRequest _ request).bind fun sig => ?_
          exact (realizes_putSignature _ _ _).bind fun _ => CallM.Realizes.pure true

theorem realizes_signPsetInputs :
    RealizesSigning hsm (CallsOf.signPsetInputs signer crates elements serde)
      (signer.signPsetInputs crates elements hsm serde) := by
  refine (realizes_onToken _ _).bind fun policy => ?_
  refine CallM.Realizes.current_bind fun s => ?_
  refine (CallM.Realizes.orErr _).bind fun unsignedTx => ?_
  refine CallM.Realizes.bind (CallM.Realizes.foldlM (fun signed inputIdx => ?_) _ 0)
    fun signed => CallM.Realizes.pure _
  exact (realizes_signPsetInput unsignedTx inputIdx).bind fun one => CallM.Realizes.pure _

theorem realizes_signPset :
    RealizesSigning hsm (CallsOf.signPset signer crates elements serde) (do
      let (policy, signed) ← signer.signPsetInputs crates elements hsm serde
      signer.recordIfSigned crates hsm serde .signerBackend policy (0 < signed)
      pure signed) := by
  refine CallM.Realizes.bind realizes_signPsetInputs fun result => ?_
  exact (realizes_recordIfSigned _ result.1 _).bind fun _ => CallM.Realizes.pure result.2

end

end EmvaultPkcs11
