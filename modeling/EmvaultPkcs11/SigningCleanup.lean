import EmvaultPkcs11.IdealVendor
import EmvaultPkcs11.SessionKeys
import EmvaultPkcs11.SigningOutcome

/-! What a signing call leaves of the keys it derives. A call destroys the last key of each path, and that
only where it comes to the end of the input: the keys of the segments before the last stay, and so does the
last one of a taproot input that fails between the derivation and the end of the leaf loop. -/

open Effect

namespace EmvaultPkcs11

variable {K D X T ε α β : Type}

/-- A Schnorr signer that leaves the objects on the token as they are. -/
def TaprootSigner.Quiet (hsm : Hsm K D) (taproot : TaprootSigner K D) : Prop :=
  ∀ m handle label path digest,
    wp (Program.run hsm.exec (taproot.signSchnorr handle label path digest))
      (fun _ m' => m.Ticked m') (fun _ m' => m.Ticked m') m

namespace AttributeDerivation

variable (recipe : AttributeDerivation K D) (crates : Crates D) (elements : ElementsCrate K D X) (hsm : Hsm K D)
  (signer : Pkcs11Signer K D)

/-! ### When a call is tidy -/

/-- The keys for a path are all destroyed: there are none, since the path is empty or the first child is
refused, or there is one and its clean-up succeeds. -/
def TidyPath (cleanup : ObjectHandle → Machine K → Prop) : DerivationPath → Machine K → Prop
  | [], _ => True
  | child :: rest, m => ∀ key, recipe.DerivesChild hsm signer.loaded.privateKey child m key →
      rest = [] ∧ cleanup m.nextHandle (withChild key m)

/-- One signature after the derivation, the key is destroyed. -/
def TidyRequest (request : Except ε (Option (EcdsaRequest D))) (m : Machine K) : Prop :=
  ∀ r, request = .ok (some r) →
    recipe.TidyPath hsm signer (fun _ m' => hsm.fault (m'.calls + 1) = none) r.relativePath m

/-- The token once every leaf is signed, `none` where a sighash or a signature cannot be made. -/
def afterLeaves (taprootSigner : TaprootSigner K D) (tx : Transaction) (inputIdx : Nat) (prevouts : List TxOut)
    (sighashType : TapSighashType) (fullPath : DerivationPath) (handle : ObjectHandle) :
    List TapLeafHash → Machine K → Option (Machine K)
  | [], m => some m
  | leafHash :: rest, m =>
      match Pkcs11Signer.leafSighash crates tx inputIdx prevouts leafHash sighashType with
      | .error _ => none
      | .ok sighash =>
          match (Program.run hsm.exec (taprootSigner.signSchnorr handle signer.label fullPath sighash)).run m with
          | .error _ _ => none
          | .ok _ m' => afterLeaves taprootSigner tx inputIdx prevouts sighashType fullPath handle rest m'

/-- Every step between the derivation and the end of the leaf loop succeeds, and the key is destroyed. -/
def LeavesCleaned (taprootSigner : TaprootSigner K D) (psbt : Psbt K) (inputIdx : Nat) (input : Input K)
    (leafHashes : List TapLeafHash) (fullPath : DerivationPath) (handle : ObjectHandle) (m : Machine K) : Prop :=
  ∃ prevouts sighashType m', Pkcs11Signer.allPrevouts psbt = .ok prevouts ∧
    Pkcs11Signer.tapSighashType crates input = .ok sighashType ∧
    afterLeaves crates hsm signer taprootSigner psbt.unsignedTx inputIdx prevouts sighashType fullPath handle
      leafHashes m = some m' ∧
    hsm.fault m'.calls = none

def TidyTaproot (psbt : Psbt K) (inputIdx : Nat) (input : Input K) (m : Machine K) : Prop :=
  ∀ taprootSigner xonly leafHashes fullPath, recipe.taprootSigner = some taprootSigner →
    signer.ourTapOrigin input = some (xonly, leafHashes, fullPath) → leafHashes ≠ [] →
    signer.derivationPath.length ≤ fullPath.length →
    recipe.TidyPath hsm signer
      (LeavesCleaned crates hsm signer taprootSigner psbt inputIdx input leafHashes fullPath)
      (fullPath.drop signer.derivationPath.length) m

def TidyInput (inputIdx : Nat) (s : SignState K (Psbt K)) : Prop :=
  ∀ input, s.transaction.inputs[inputIdx]? = some input →
    if Pkcs11Signer.isTaproot input then
      recipe.TidyTaproot crates hsm signer s.transaction inputIdx input s.machine
    else
      recipe.TidyRequest hsm signer (signer.wshRequest crates s.transaction.unsignedTx inputIdx input) s.machine

def TidyPsetInput (unsignedTx : X) (inputIdx : Nat) (s : SignState K (Pset K)) : Prop :=
  ∀ input, s.transaction.inputs[inputIdx]? = some input →
    recipe.TidyRequest hsm signer (signer.psetRequest elements unsignedTx inputIdx input) s.machine

/-- Every input that `sign_transaction` comes to is tidy. -/
def TidyTransaction (serde : Serde) (s : SignState K (Psbt K)) : Prop :=
  s.poisoned = false → ∀ policy m,
    (Program.run hsm.exec (loadPolicy serde signer.label)).run s.machine = .ok policy m →
    policy.checkAgainstPsbt crates s.transaction signer.network = .ok () →
    RoundsMeet (signer.signInput crates hsm) (recipe.TidyInput crates hsm signer)
      (List.range s.transaction.inputs.length) { s with machine := m }

/-- Every input that `sign_pset` comes to is tidy. -/
def TidyPset (serde : Serde) (s : SignState K (Pset K)) : Prop :=
  s.poisoned = false → ∀ policy m unsignedTx,
    (Program.run hsm.exec (loadPolicy serde signer.label)).run s.machine = .ok policy m →
    elements.extractTx s.transaction = .ok unsignedTx →
    RoundsMeet (signer.signPsetInput crates elements hsm unsignedTx)
      (recipe.TidyPsetInput elements hsm signer unsignedTx)
      (List.range s.transaction.inputs.length) { s with machine := m }

variable {recipe crates elements hsm signer}

/-! ### One path -/

/-- From `m` to `m'` keys have been derived, and none of them is left exactly if `tidy`. -/
def Left (tidy : Prop) (m m' : Machine K) : Prop := Machine.Adds IsChild m m' ∧ (m'.objects = m.objects ↔ tidy)

theorem Left.of_ticked {tidy : Prop} {m m' : Machine K} (h : m.Ticked m') (htidy : tidy) : Left tidy m m' :=
  ⟨h.adds, iff_of_true h.objects htidy⟩

theorem Left.of_live {tidy : Prop} {m m' : Machine K} {handle : ObjectHandle} {object : Object K}
    (hadds : Machine.Adds IsChild m m') (hfresh : m.nextHandle ≤ handle) (hlive : m'.object? handle = some object)
    (htidy : ¬tidy) : Left tidy m m' :=
  ⟨hadds, iff_of_false (Machine.objects_ne_of_live hfresh hlive) htidy⟩

/-- Destroying a key of this call by a call that is refused. -/
theorem wp_destroyChild_refused {handle : ObjectHandle} {s : SignState K T} {e : CryptokiError}
    (hne : handle ≠ signer.loaded.privateKey) (hrefused : hsm.fault s.machine.calls = some e)
    (Q : Unit → SignState K T → Prop) (E : Stop ε → SignState K T → Prop) :
    wp (signer.destroyChild hsm handle : SignM K T ε Unit) Q E s ↔ Q () { s with machine := s.machine.tick } := by
  rw [Pkcs11Signer.destroyChild, if_pos hne, onToken, wp_mapErr, wp_onPart]
  simp only [Session.tryDestroyObject, Program.wp_run_call, Program.wp_run_done, Hsm.exec, hrefused]

/-- And by a call that is served. -/
theorem wp_destroyChild_served {handle : ObjectHandle} {object : Object K} {s : SignState K T}
    (hne : handle ≠ signer.loaded.privateKey) (hserved : hsm.fault s.machine.calls = none)
    (hlive : s.machine.object? handle = some object) (Q : Unit → SignState K T → Prop)
    (E : Stop ε → SignState K T → Prop) :
    wp (signer.destroyChild hsm handle : SignM K T ε Unit) Q E s ↔
      Q () { s with machine := (s.machine.destroy handle).tick } := by
  rw [Pkcs11Signer.destroyChild, if_pos hne, onToken, wp_mapErr, wp_onPart]
  exact Session.wp_tryDestroyObject_served hsm hserved hlive _ _

/-- Whatever comes of destroying a key, no other key is affected. -/
theorem wp_destroyChild_live {handle other : ObjectHandle} {object : Object K} {s : SignState K T}
    (hne : handle ≠ signer.loaded.privateKey) {m : Machine K} (hadds : Machine.Adds IsChild m s.machine)
    (hfresh : m.nextHandle ≤ handle) (hother : other ≠ handle) (hlive : s.machine.object? other = some object)
    {Q : Unit → SignState K T → Prop} {E : Stop ε → SignState K T → Prop}
    (hQ : ∀ m', Machine.Adds IsChild m m' → m'.object? other = some object → Q () { s with machine := m' }) :
    wp (signer.destroyChild hsm handle : SignM K T ε Unit) Q E s := by
  rw [Pkcs11Signer.destroyChild, if_pos hne, onToken, wp_mapErr, wp_onPart]
  apply Session.wp_tryDestroyObject
  · exact hQ _ (hadds.trans (.tick _)) hlive
  · intro _ _
    exact hQ _ ((hadds.destroy hfresh).trans (.tick _)) (Machine.object?_destroy_of_some _ hlive hother)

section

variable (hbackend : signer.backend = recipe.toHsmBackend crates) (fail : String → ε)
  {cleanup : ObjectHandle → Machine K → Prop} {body : ObjectHandle → SignM K T ε α} {rest : α → SignM K T ε β}
  {s : SignState K T}

include hbackend in
/-- The handle for a path that is not empty: nothing is derived, or the first child is there. -/
theorem wp_signingHandle_cons (child : ChildNumber) (path : DerivationPath) :
    wp (signer.signingHandle crates hsm fail (child :: path) : SignM K T ε ObjectHandle)
      (fun handle s₁ => s₁.transaction = s.transaction ∧ ∃ key,
        recipe.DerivesChild hsm signer.loaded.privateKey child s.machine key ∧
        Machine.Adds IsChild (withChild key s.machine) s₁.machine ∧
        (path = [] ∧ handle = s.machine.nextHandle ∧ s₁.machine = withChild key s.machine ∨
          path ≠ [] ∧ (withChild key s.machine).nextHandle ≤ handle))
      (fun _ s₁ => Left (recipe.TidyPath hsm signer cleanup (child :: path) s.machine) s.machine s₁.machine) s := by
  rw [Pkcs11Signer.signingHandle, if_neg (by simp), hbackend, onToken, wp_mapErr, wp_onPart]
  refine wp_mono (wp_derivePath_cons signer.loaded.privateKey child path s.machine)
    (fun handle m₁ h => ⟨rfl, h⟩) (fun e m₁ h => ?_)
  rcases h with ⟨rfl, hrefused⟩ | ⟨hne, key, hderives, hadds⟩
  · exact .of_ticked (.tick _) fun key hderives => absurd hderives (hrefused key)
  · refine .of_live ((adds_withChild key s.machine).trans hadds) (Nat.le_refl _)
      ((hadds.keeps fun _ => IsChild.not_data).objects _ _ (object?_withChild key s.machine)) fun htidy => ?_
    exact hne (htidy key hderives).1

variable {m : Machine K} {child : ChildNumber} {key : K}

/-- What is done with the only key of a path: it is there until it is destroyed. -/
theorem wp_useKey_single (hderives : recipe.DerivesChild hsm signer.loaded.privateKey child m key)
    (hmachine : s.machine = withChild key m)
    (hbody : wp (body m.nextHandle)
      (fun _ s₂ => s.machine.Ticked s₂.machine ∧
        (cleanup m.nextHandle s.machine ↔ hsm.fault s₂.machine.calls = none))
      (fun _ s₂ => s.machine.Ticked s₂.machine ∧ ¬cleanup m.nextHandle s.machine) s)
    (hrest : ∀ a s₂, wp (rest a) (fun _ s' => s'.machine = s₂.machine) (fun _ s' => s'.machine = s₂.machine) s₂) :
    wp (do
        let a ← body m.nextHandle
        signer.destroyChild hsm m.nextHandle
        rest a)
      (fun _ s' => Left (recipe.TidyPath hsm signer cleanup [child] m) m s'.machine)
      (fun _ s' => Left (recipe.TidyPath hsm signer cleanup [child] m) m s'.machine) s := by
  have htidy : recipe.TidyPath hsm signer cleanup [child] m ↔ cleanup m.nextHandle s.machine := by
    rw [hmachine]
    refine ⟨fun h => (h key hderives).2, fun h key' hderives' => ⟨rfl, ?_⟩⟩
    rwa [hderives.unique hderives']
  have hown : m.nextHandle ≠ signer.loaded.privateKey := (Nat.ne_of_lt hderives.lt).symm
  have hadds : Machine.Adds IsChild m s.machine := by
    rw [hmachine]
    exact adds_withChild key m
  have hlive : s.machine.object? m.nextHandle = some ⟨childKeyTemplate, some key⟩ := by
    rw [hmachine]
    exact object?_withChild key m
  have hfresh := Nat.le_refl m.nextHandle
  rw [wp_bind]
  refine wp_mono hbody (fun a s₂ h₂ => ?_) (fun _ s₂ h₂ => ?_)
  · obtain ⟨hticked, hcleanup⟩ := h₂
    have hadds₂ := hadds.trans hticked.adds
    have hlive₂ := hticked.keeps.objects _ _ hlive
    rw [wp_bind]
    cases hfault : hsm.fault s₂.machine.calls with
    | some e =>
        have hleft : Left (recipe.TidyPath hsm signer cleanup [child] m) m s₂.machine.tick := by
          refine .of_live (hadds₂.trans (.tick _)) hfresh hlive₂ fun h => ?_
          have hserved := hcleanup.mp (htidy.mp h)
          rw [hfault] at hserved
          cases hserved
        rw [wp_destroyChild_refused hown hfault]
        exact wp_mono (hrest a _) (fun _ s' h => h ▸ hleft) (fun _ s' h => h ▸ hleft)
    | none =>
        have hleft : Left (recipe.TidyPath hsm signer cleanup [child] m) m
            (s₂.machine.destroy m.nextHandle).tick := by
          refine ⟨(hadds₂.destroy hfresh).trans (.tick _), iff_of_true ?_ (htidy.mpr (hcleanup.mpr hfault))⟩
          rw [Machine.objects_tick, Machine.objects_destroy, hticked.objects, hmachine]
          exact m.objects_destroy_create _
        rw [wp_destroyChild_served hown hfault hlive₂]
        exact wp_mono (hrest a _) (fun _ s' h => h ▸ hleft) (fun _ s' h => h ▸ hleft)
  · exact .of_live (hadds.trans h₂.1.adds) hfresh (h₂.1.keeps.objects _ _ hlive) fun h => h₂.2 (htidy.mp h)

/-- What is done with the last key of several: nothing destroys the first. -/
theorem wp_useKey_several (hderives : recipe.DerivesChild hsm signer.loaded.privateKey child m key)
    (hadds : Machine.Adds IsChild (withChild key m) s.machine) {path : DerivationPath} (hne : path ≠ [])
    {handle : ObjectHandle} (hlast : (withChild key m).nextHandle ≤ handle)
    (hbody : wp (body handle) (fun _ s₂ => s.machine.Ticked s₂.machine) (fun _ s₂ => s.machine.Ticked s₂.machine) s)
    (hrest : ∀ a s₂, wp (rest a) (fun _ s' => s'.machine = s₂.machine) (fun _ s' => s'.machine = s₂.machine) s₂) :
    wp (do
        let a ← body handle
        signer.destroyChild hsm handle
        rest a)
      (fun _ s' => Left (recipe.TidyPath hsm signer cleanup (child :: path) m) m s'.machine)
      (fun _ s' => Left (recipe.TidyPath hsm signer cleanup (child :: path) m) m s'.machine) s := by
  have hnot : ¬recipe.TidyPath hsm signer cleanup (child :: path) m := fun h => hne (h key hderives).1
  have hlt : m.nextHandle < handle := hlast
  have hown : handle ≠ signer.loaded.privateKey := (Nat.ne_of_lt (hderives.lt.trans hlt)).symm
  have hadds₁ := (adds_withChild key m).trans hadds
  have hlive := (hadds.keeps fun _ => IsChild.not_data).objects _ _ (object?_withChild key m)
  rw [wp_bind]
  refine wp_mono hbody (fun a s₂ hticked => ?_) (fun _ s₂ hticked => ?_)
  · rw [wp_bind]
    refine wp_destroyChild_live hown (hadds₁.trans hticked.adds) hlt.le (Nat.ne_of_lt hlt)
      (hticked.keeps.objects _ _ hlive) fun m' hadds' hlive' => ?_
    have hleft := Left.of_live hadds' (Nat.le_refl _) hlive' hnot
    exact wp_mono (hrest a _) (fun _ s' h => h ▸ hleft) (fun _ s' h => h ▸ hleft)
  · exact .of_live (hadds₁.trans hticked.adds) (Nat.le_refl _) (hticked.keeps.objects _ _ hlive) hnot

include hbackend in
/-- A key, what is done with it and its destruction, for a path of any length. -/
theorem wp_withKey (path : DerivationPath)
    (hbody : ∀ handle s₁, s₁.transaction = s.transaction → wp (body handle)
      (fun _ s₂ => s₁.machine.Ticked s₂.machine ∧ (cleanup handle s₁.machine ↔ hsm.fault s₂.machine.calls = none))
      (fun _ s₂ => s₁.machine.Ticked s₂.machine ∧ ¬cleanup handle s₁.machine) s₁)
    (hrest : ∀ a s₂, wp (rest a) (fun _ s' => s'.machine = s₂.machine) (fun _ s' => s'.machine = s₂.machine) s₂) :
    wp (do
        let handle ← signer.signingHandle crates hsm fail path
        let a ← body handle
        signer.destroyChild hsm handle
        rest a)
      (fun _ s' => Left (recipe.TidyPath hsm signer cleanup path s.machine) s.machine s'.machine)
      (fun _ s' => Left (recipe.TidyPath hsm signer cleanup path s.machine) s.machine s'.machine) s := by
  cases path with
  | nil =>
      -- the federation key signs, and it is not destroyed
      simp only [Pkcs11Signer.signingHandle, List.isEmpty_nil, if_true, wp_bind, wp_pure]
      refine wp_mono (hbody signer.loaded.privateKey s rfl) (fun a s₂ h₂ => ?_)
        (fun _ s₂ h₂ => .of_ticked h₂.1 trivial)
      rw [Pkcs11Signer.destroyChild, if_neg (not_not_intro rfl), wp_pure]
      refine wp_mono (hrest a s₂) (fun _ s' h => ?_) (fun _ s' h => ?_) <;> rw [h] <;>
        exact .of_ticked h₂.1 trivial
  | cons child path =>
      rw [wp_bind]
      refine wp_mono (wp_signingHandle_cons hbackend fail child path) (fun handle s₁ h₁ => ?_) (fun _ _ h => h)
      obtain ⟨htx, key, hderives, hadds, hlast⟩ := h₁
      rcases hlast with ⟨rfl, rfl, hmachine⟩ | ⟨hne, hlast⟩
      · exact wp_useKey_single hderives hmachine (hbody _ s₁ htx) hrest
      · exact wp_useKey_several hderives hadds hne hlast
          (wp_mono (hbody handle s₁ htx) (fun _ _ h => h.1) (fun _ _ h => h.1)) hrest

end

/-! ### One input -/

/-- The stock signer makes one call and never panics. -/
theorem wp_pkcs11EcdsaSigner (handle : ObjectHandle) (digest : D) (m : Machine K) :
    wp (Program.run hsm.exec ((pkcs11EcdsaSigner crates).signEcdsa handle digest))
      (fun _ m' => m' = m.tick) (fun e m' => m' = m.tick ∧ ∃ e', e = .err e') m := by
  simp only [pkcs11EcdsaSigner, signWithLowS, Program.wp_run_mapError, Program.wp_run_bind, Session.wp_sign]
  refine ⟨fun e _ => ⟨trivial, _, rfl⟩, fun _ => ?_⟩
  split
  · exact ⟨trivial, _, rfl⟩
  split
  · exact ⟨trivial, _, rfl⟩
  split
  · exact ⟨rfl, _, rfl⟩
  split
  · exact ⟨rfl, _, rfl⟩
  · rfl

theorem wp_signRequest_left (hbackend : signer.backend = recipe.toHsmBackend crates) (fail : String → ε)
    (request : EcdsaRequest D) (s : SignState K T) :
    wp (signer.signRequest crates hsm fail request : SignM K T ε (Signature K))
      (fun _ s' => Left (recipe.TidyPath hsm signer (fun _ m' => hsm.fault (m'.calls + 1) = none)
        request.relativePath s.machine) s.machine s'.machine)
      (fun _ s' => Left (recipe.TidyPath hsm signer (fun _ m' => hsm.fault (m'.calls + 1) = none)
        request.relativePath s.machine) s.machine s'.machine) s := by
  refine wp_withKey hbackend fail request.relativePath (fun handle s₁ _ => ?_) (fun result s₂ => ?_)
  · rw [wp_attempt, Pkcs11Signer.signSegwit, hbackend]
    simp only [toHsmBackend, onToken, wp_mapErr, wp_onPart]
    refine wp_mono (wp_pkcs11EcdsaSigner handle request.sighash s₁.machine) (fun _ m h => ?_) (fun e m h => ?_)
    · rw [h]
      exact ⟨.tick _, Iff.rfl⟩
    · obtain ⟨rfl, e', rfl⟩ := h
      exact ⟨.tick _, Iff.rfl⟩
  · rw [wp_bind, wp_orErr]
    exact ⟨fun _ _ => rfl, fun _ _ => rfl⟩

/-- From a request to the signature in the input map. -/
theorem wp_answerRequest_left (hbackend : signer.backend = recipe.toHsmBackend crates) (fail : String → ε)
    (insert : T → Nat → Insertion K → T) (inputIdx : Nat) (answer : Except ε (Option (EcdsaRequest D)))
    (s : SignState K T) :
    wp (do
        let request ← orErr answer
        match request with
        | none => pure false
        | some request => do
            let sig ← signer.signRequest crates hsm fail request
            putSignature hsm insert inputIdx (.partialSig request.publicKey ⟨sig, request.sighashType⟩)
            pure true : SignM K T ε Bool)
      (fun _ s' => Left (recipe.TidyRequest hsm signer answer s.machine) s.machine s'.machine)
      (fun _ s' => Left (recipe.TidyRequest hsm signer answer s.machine) s.machine s'.machine) s := by
  rw [wp_bind, wp_orErr]
  refine ⟨fun request hrequest => ?_, fun e he => .of_ticked (.refl _) fun r hr => ?_⟩
  · subst hrequest
    cases request with
    | none => exact .of_ticked (.refl _) fun r hr => by cases hr
    | some request =>
        have htidy : recipe.TidyRequest hsm signer (.ok (some request) : Except ε _) s.machine ↔
            recipe.TidyPath hsm signer (fun _ m' => hsm.fault (m'.calls + 1) = none) request.relativePath
              s.machine := by
          refine ⟨fun h => h request rfl, fun h r hr => ?_⟩
          obtain rfl := Option.some.inj (Except.ok.inj hr)
          exact h
        rw [htidy, wp_bind]
        refine wp_mono (wp_signRequest_left hbackend fail request s) (fun sig s₁ h₁ => ?_) (fun _ _ h => h)
        rw [wp_bind, putSignature, wp_modify]
        exact h₁
  · rw [he] at hr
    cases hr

/-- The leaf loop leaves the objects alone, and comes to its end exactly where every leaf can be signed. -/
theorem wp_leafLoop {taprootSigner : TaprootSigner K D} (hquiet : taprootSigner.Quiet hsm) (inputIdx : Nat)
    (prevouts : List TxOut) (sighashType : TapSighashType) (handle : ObjectHandle) (xonly : XOnlyPublicKey)
    (fullPath : DerivationPath) (leafHashes : List TapLeafHash) :
    ∀ (signed : Bool) (s : SignState K (Psbt K)),
      wp (leafHashes.foldlM (fun _ leafHash => do
          signer.signLeaf crates hsm taprootSigner inputIdx prevouts sighashType handle xonly fullPath leafHash
          pure true) signed)
        (fun _ s' => s.machine.Ticked s'.machine ∧
          afterLeaves crates hsm signer taprootSigner s.transaction.unsignedTx inputIdx prevouts sighashType
            fullPath handle leafHashes s.machine = some s'.machine)
        (fun _ s' => s.machine.Ticked s'.machine ∧
          afterLeaves crates hsm signer taprootSigner s.transaction.unsignedTx inputIdx prevouts sighashType
            fullPath handle leafHashes s.machine = none) s := by
  induction leafHashes with
  | nil => exact fun signed s => ⟨.refl _, rfl⟩
  | cons leafHash rest ih =>
      intro signed s
      simp only [List.foldlM_cons, Pkcs11Signer.signLeaf, wp_bind, wp_get, wp_orErr, wp_pure, afterLeaves]
      refine ⟨fun sighash hsighash => ?_, fun e he => ⟨.refl _, by rw [he]⟩⟩
      simp only [hsighash, onToken, wp_mapErr, wp_onPart]
      refine wp_mono (wp_and (hquiet s.machine handle signer.label fullPath sighash) (wp_run_eq _ s.machine))
        (fun sig m₁ h₁ => ?_) (fun e m₁ h₁ => ⟨h₁.1, by rw [h₁.2]⟩)
      obtain ⟨hticked, hrun⟩ := h₁
      rw [putSignature, wp_modify, hrun]
      exact wp_mono (ih true _) (fun _ _ h => ⟨hticked.trans h.1, h.2⟩) (fun _ _ h => ⟨hticked.trans h.1, h.2⟩)

variable (crates signer) in
/-- What stands between the derivation and the clean-up of a taproot input. -/
theorem wp_leaves {taprootSigner : TaprootSigner K D} (hquiet : taprootSigner.Quiet hsm) (inputIdx : Nat)
    (input : Input K) (handle : ObjectHandle) (xonly : XOnlyPublicKey) (fullPath : DerivationPath)
    (leafHashes : List TapLeafHash) (s : SignState K (Psbt K)) :
    wp (do
        let psbt := (← get).transaction
        let prevouts ← orErr (Pkcs11Signer.allPrevouts psbt)
        let sighashType ← orErr (Pkcs11Signer.tapSighashType crates input)
        leafHashes.foldlM (fun _ leafHash => do
          signer.signLeaf crates hsm taprootSigner inputIdx prevouts sighashType handle xonly fullPath leafHash
          pure true) false : SignM K (Psbt K) BdkSignerError Bool)
      (fun _ s' => s.machine.Ticked s'.machine ∧
        (LeavesCleaned crates hsm signer taprootSigner s.transaction inputIdx input leafHashes fullPath handle
          s.machine ↔ hsm.fault s'.machine.calls = none))
      (fun _ s' => s.machine.Ticked s'.machine ∧
        ¬LeavesCleaned crates hsm signer taprootSigner s.transaction inputIdx input leafHashes fullPath handle
          s.machine) s := by
  simp only [wp_bind, wp_get, wp_orErr]
  refine ⟨fun prevouts hprevouts => ⟨fun sighashType hsighashType => ?_, fun e he => ?_⟩, fun e he => ?_⟩
  · refine wp_mono (wp_leafLoop hquiet inputIdx prevouts sighashType handle xonly fullPath leafHashes false s)
      (fun _ s' h => ⟨h.1, ?_⟩) (fun _ s' h => ⟨h.1, ?_⟩)
    · constructor
      · rintro ⟨prevouts', sighashType', m', hprevouts', hsighashType', hafter, hserved⟩
        obtain rfl := Except.ok.inj (hprevouts.symm.trans hprevouts')
        obtain rfl := Except.ok.inj (hsighashType.symm.trans hsighashType')
        obtain rfl := Option.some.inj (h.2.symm.trans hafter)
        exact hserved
      · exact fun hserved => ⟨prevouts, sighashType, s'.machine, hprevouts, hsighashType, h.2, hserved⟩
    · rintro ⟨prevouts', sighashType', m', hprevouts', hsighashType', hafter, _⟩
      obtain rfl := Except.ok.inj (hprevouts.symm.trans hprevouts')
      obtain rfl := Except.ok.inj (hsighashType.symm.trans hsighashType')
      cases h.2.symm.trans hafter
  · refine ⟨.refl _, ?_⟩
    rintro ⟨_, sighashType, _, _, hsighashType, _⟩
    cases he.symm.trans hsighashType
  · refine ⟨.refl _, ?_⟩
    rintro ⟨prevouts, _, _, hprevouts, _⟩
    cases he.symm.trans hprevouts

theorem wp_signLeaves_left (hbackend : signer.backend = recipe.toHsmBackend crates)
    {taprootSigner : TaprootSigner K D} (hquiet : taprootSigner.Quiet hsm) (inputIdx : Nat) (input : Input K)
    (path : DerivationPath) (xonly : XOnlyPublicKey) (leafHashes : List TapLeafHash) (fullPath : DerivationPath)
    (s : SignState K (Psbt K)) :
    wp (signer.signLeaves crates hsm taprootSigner inputIdx input path xonly leafHashes fullPath)
      (fun _ s' => Left (recipe.TidyPath hsm signer
        (LeavesCleaned crates hsm signer taprootSigner s.transaction inputIdx input leafHashes fullPath) path
        s.machine) s.machine s'.machine)
      (fun _ s' => Left (recipe.TidyPath hsm signer
        (LeavesCleaned crates hsm signer taprootSigner s.transaction inputIdx input leafHashes fullPath) path
        s.machine) s.machine s'.machine) s := by
  have hrest (signed : Bool) (s₂ : SignState K (Psbt K)) : wp (pure signed : SignM K (Psbt K) BdkSignerError Bool)
      (fun _ s' => s'.machine = s₂.machine) (fun _ s' => s'.machine = s₂.machine) s₂ := rfl
  have hkey := wp_withKey hbackend BdkSignerError.external path (s := s)
    (fun handle s₁ htx => htx ▸ wp_leaves crates signer hquiet inputIdx input handle xonly fullPath leafHashes s₁)
    hrest
  simp only [wp_bind] at hkey
  simp only [Pkcs11Signer.signLeaves, wp_bind]
  exact hkey

theorem wp_signTaprootInput_left (hbackend : signer.backend = recipe.toHsmBackend crates)
    (hquiet : ∀ taprootSigner, recipe.taprootSigner = some taprootSigner → taprootSigner.Quiet hsm) (inputIdx : Nat)
    (input : Input K) (s : SignState K (Psbt K)) :
    wp (signer.signTaprootInput crates hsm inputIdx input)
      (fun _ s' => Left (recipe.TidyTaproot crates hsm signer s.transaction inputIdx input s.machine)
        s.machine s'.machine)
      (fun _ s' => Left (recipe.TidyTaproot crates hsm signer s.transaction inputIdx input s.machine)
        s.machine s'.machine) s := by
  unfold Pkcs11Signer.signTaprootInput
  cases horigin : signer.ourTapOrigin input with
  | none =>
      refine .of_ticked (.refl _) fun _ xonly leafHashes fullPath _ h => ?_
      cases horigin.symm.trans h
  | some origin =>
      obtain ⟨xonly, leafHashes, fullPath⟩ := origin
      dsimp only
      rw [wp_ite]
      refine ⟨fun hempty => .of_ticked (.refl _) fun _ _ _ _ _ h hleaves => ?_, fun hleaves => ?_⟩
      · cases horigin.symm.trans h
        exact absurd (List.isEmpty_iff.mp hempty) hleaves
      rw [hbackend]
      dsimp only [toHsmBackend]
      cases htaproot : recipe.taprootSigner with
      | none =>
          refine .of_ticked (.refl _) fun _ _ _ _ h => ?_
          cases htaproot.symm.trans h
      | some taprootSigner =>
          rw [wp_bind, wp_orErr]
          refine ⟨fun path hpath => ?_, fun e he => .of_ticked (.refl _) fun _ _ _ _ _ h _ hlength => ?_⟩
          · unfold Pkcs11Signer.relativePath at hpath
            split at hpath
            · cases hpath
            · next hlength =>
              obtain rfl := Except.ok.inj hpath
              have htidy : recipe.TidyTaproot crates hsm signer s.transaction inputIdx input s.machine ↔
                  recipe.TidyPath hsm signer
                    (LeavesCleaned crates hsm signer taprootSigner s.transaction inputIdx input leafHashes fullPath)
                    (fullPath.drop signer.derivationPath.length) s.machine := by
                constructor
                · intro h
                  exact h taprootSigner xonly leafHashes fullPath htaproot horigin
                    (fun hnil => hleaves (List.isEmpty_iff.mpr hnil)) (Nat.not_lt.mp hlength)
                · intro h taprootSigner' _ _ _ htaproot' horigin' _ _
                  cases horigin.symm.trans horigin'
                  cases htaproot.symm.trans htaproot'
                  exact h
              rw [htidy]
              exact wp_signLeaves_left hbackend (hquiet taprootSigner htaproot) inputIdx input _ xonly leafHashes
                fullPath s
          · cases horigin.symm.trans h
            rw [Pkcs11Signer.relativePath, if_neg (Nat.not_lt.mpr hlength)] at he
            cases he

theorem wp_signInput_left (hbackend : signer.backend = recipe.toHsmBackend crates)
    (hquiet : ∀ taprootSigner, recipe.taprootSigner = some taprootSigner → taprootSigner.Quiet hsm) (inputIdx : Nat)
    (s : SignState K (Psbt K)) :
    wp (signer.signInput crates hsm inputIdx)
      (fun _ s' => Left (recipe.TidyInput crates hsm signer inputIdx s) s.machine s'.machine)
      (fun _ s' => Left (recipe.TidyInput crates hsm signer inputIdx s) s.machine s'.machine) s := by
  unfold Pkcs11Signer.signInput TidyInput
  rw [wp_bind, wp_get]
  dsimp only
  cases s.transaction.inputs[inputIdx]? with
  | none => exact .of_ticked (.refl _) fun input h => by cases h
  | some input =>
      simp only [Option.some.injEq, forall_eq']
      split
      · exact wp_signTaprootInput_left hbackend hquiet inputIdx input s
      · exact wp_answerRequest_left hbackend BdkSignerError.external Psbt.insert inputIdx _ s

variable (elements hsm) in
theorem wp_signPsetInput_left (hbackend : signer.backend = recipe.toHsmBackend crates) (unsignedTx : X)
    (inputIdx : Nat) (s : SignState K (Pset K)) :
    wp (signer.signPsetInput crates elements hsm unsignedTx inputIdx)
      (fun _ s' => Left (recipe.TidyPsetInput elements hsm signer unsignedTx inputIdx s) s.machine s'.machine)
      (fun _ s' => Left (recipe.TidyPsetInput elements hsm signer unsignedTx inputIdx s) s.machine s'.machine)
      s := by
  unfold Pkcs11Signer.signPsetInput TidyPsetInput
  rw [wp_bind, wp_get]
  dsimp only
  cases s.transaction.inputs[inputIdx]? with
  | none => exact .of_ticked (.refl _) fun input h => by cases h
  | some input =>
      simp only [Option.some.injEq, forall_eq']
      exact wp_answerRequest_left hbackend PsetError.signerBackend (Pset.insert elements) inputIdx _ s

/-! ### The call -/

theorem Left.after_ticked {tidy : Prop} {m m₁ m' : Machine K} (hticked : m.Ticked m₁) (h : Left tidy m₁ m') :
    Left tidy m m' :=
  ⟨hticked.adds.trans h.1, by rw [← h.2, hticked.objects]⟩

/-- The rounds of a loop leave no key exactly if each of them that is run leaves none. -/
theorem wp_rounds_left {γ : Type} {round : γ → SignM K T ε α} {P : γ → SignState K T → Prop}
    (hround : ∀ x s, wp (round x) (fun _ s' => Left (P x s) s.machine s'.machine)
      (fun _ s' => Left (P x s) s.machine s'.machine) s) (next : β → α → β) (l : List γ) (b : β)
    (s : SignState K T) :
    wp (l.foldlM (fun b x => do
        let a ← round x
        pure (next b a)) b)
      (fun _ s' => Left (RoundsMeet round P l s) s.machine s'.machine)
      (fun _ s' => Left (RoundsMeet round P l s) s.machine s'.machine) s := by
  have hrefl (s₁ : SignState K T) : Machine.Adds IsChild s₁.machine s₁.machine ∧
      s₁.machine.objects = s₁.machine.objects := ⟨.refl _, rfl⟩
  have htrans (s₁ s₂ s₃ : SignState K T) (h : Machine.Adds IsChild s₁.machine s₂.machine)
      (h' : Machine.Adds IsChild s₂.machine s₃.machine) : Machine.Adds IsChild s₁.machine s₃.machine ∧
      (s₃.machine.objects = s₁.machine.objects ↔
        s₂.machine.objects = s₁.machine.objects ∧ s₃.machine.objects = s₂.machine.objects) :=
    ⟨h.trans h', h.objects_eq_iff h'⟩
  exact wp_foldlM_iff hrefl htrans hround next l b s

/-- What a call does once it has loaded the policy. -/
theorem wp_loadPolicy_left {serde : Serde} {ε' : Type} (wrap : Pkcs11Error → ε') {tidy : Prop} {s : SignState K T}
    {rest : MinimalHsmPolicy → SignM K T ε' α}
    (hrest : ∀ policy m, (Program.run hsm.exec (loadPolicy serde signer.label)).run s.machine = .ok policy m →
      wp (rest policy) (fun _ s' => Left tidy m s'.machine) (fun _ s' => Left tidy m s'.machine)
        { s with machine := m })
    (hfailed : (∀ policy m, (Program.run hsm.exec (loadPolicy serde signer.label)).run s.machine ≠ .ok policy m) →
      tidy) :
    wp (onToken hsm wrap (loadPolicy serde signer.label) >>= rest) (fun _ s' => Left tidy s.machine s'.machine)
      (fun _ s' => Left tidy s.machine s'.machine) s := by
  rw [wp_bind, onToken, wp_mapErr, wp_onPart]
  have hload := wp_loadRecord hsm (policyLabel signer.label) .permissive serde.policyFromSlice s.machine
  refine wp_mono (wp_and hload (wp_run_eq _ s.machine)) (fun policy m₁ h₁ => ?_) (fun e m₁ h₁ => ?_)
  · obtain ⟨⟨_, hticked⟩, hrun⟩ := h₁
    exact wp_mono (hrest policy m₁ hrun) (fun _ _ h => h.after_ticked hticked)
      (fun _ _ h => h.after_ticked hticked)
  · refine .of_ticked h₁.1.2 (hfailed fun policy' m' hrun' => ?_)
    cases h₁.2.symm.trans hrun'

theorem wp_signInputs_left {serde : Serde} (hbackend : signer.backend = recipe.toHsmBackend crates)
    (hquiet : ∀ taprootSigner, recipe.taprootSigner = some taprootSigner → taprootSigner.Quiet hsm)
    {s : SignState K (Psbt K)} (hlock : s.poisoned = false) :
    wp (signer.signInputs crates hsm serde)
      (fun _ s' => Left (recipe.TidyTransaction crates hsm signer serde s) s.machine s'.machine)
      (fun _ s' => Left (recipe.TidyTransaction crates hsm signer serde s) s.machine s'.machine) s := by
  apply wp_loadPolicy_left
  · intro policy m hrun
    simp only [wp_bind, wp_get, wp_ofResult, mapError_eq_ok]
    refine ⟨fun _ hadmits => ?_, fun e he => .of_ticked (.refl m) fun _ policy' m' hrun' hadmits => ?_⟩
    · have htidy : recipe.TidyTransaction crates hsm signer serde s ↔
          RoundsMeet (signer.signInput crates hsm) (recipe.TidyInput crates hsm signer)
            (List.range s.transaction.inputs.length) { s with machine := m } := by
        refine ⟨fun h => h hlock policy m hrun hadmits, fun h _ policy' m' hrun' _ => ?_⟩
        obtain ⟨rfl, rfl⟩ := EStateM.Result.ok.inj (hrun.symm.trans hrun')
        exact h
      rw [htidy]
      exact wp_rounds_left (wp_signInput_left hbackend hquiet) (fun signedAny signed => signedAny || signed) _ _ _
    · obtain ⟨rfl, rfl⟩ := EStateM.Result.ok.inj (hrun.symm.trans hrun')
      rw [hadmits] at he
      cases he
  · intro hfailed _ policy m hrun
    exact absurd hrun (hfailed policy m)

theorem wp_signPsetInputs_left {serde : Serde} (hbackend : signer.backend = recipe.toHsmBackend crates)
    {s : SignState K (Pset K)} (hlock : s.poisoned = false) :
    wp (signer.signPsetInputs crates elements hsm serde)
      (fun _ s' => Left (recipe.TidyPset crates elements hsm signer serde s) s.machine s'.machine)
      (fun _ s' => Left (recipe.TidyPset crates elements hsm signer serde s) s.machine s'.machine) s := by
  apply wp_loadPolicy_left
  · intro policy m hrun
    simp only [wp_bind, wp_get, wp_orErr, mapError_eq_ok]
    refine ⟨fun unsignedTx hextract => ?_, fun e he => .of_ticked (.refl m) fun _ _ _ tx' _ hextract => ?_⟩
    · have htidy : recipe.TidyPset crates elements hsm signer serde s ↔
          RoundsMeet (signer.signPsetInput crates elements hsm unsignedTx)
            (recipe.TidyPsetInput elements hsm signer unsignedTx)
            (List.range s.transaction.inputs.length) { s with machine := m } := by
        refine ⟨fun h => h hlock policy m unsignedTx hrun hextract, fun h _ policy' m' tx' hrun' hextract' => ?_⟩
        obtain ⟨rfl, rfl⟩ := EStateM.Result.ok.inj (hrun.symm.trans hrun')
        obtain rfl := Except.ok.inj (hextract.symm.trans hextract')
        exact h
      rw [htidy]
      exact wp_rounds_left (wp_signPsetInput_left elements hsm hbackend unsignedTx)
        (fun signed one => if one then signed + 1 else signed) _ _ _
    · rw [hextract] at he
      cases he
  · intro hfailed _ policy m tx hrun
    exact absurd hrun (hfailed policy m)

/-- Recording the signature rate leaves the keys of the session alone. -/
theorem recordIfSigned_leaves_sessionKeys (serde : Serde) (fail : String → ε) (policy : MinimalHsmPolicy)
    (signedAny : Bool) (s : SignState K T) :
    wp (signer.recordIfSigned crates hsm serde fail policy signedAny : SignM K T ε Unit)
      (fun _ s' => s'.machine.sessionKeys = s.machine.sessionKeys)
      (fun _ s' => s'.machine.sessionKeys = s.machine.sessionKeys) s := by
  unfold Pkcs11Signer.recordIfSigned
  split
  · rw [onToken, wp_mapErr, wp_onPart]
    exact checkAndRecordSigrate_leaves_sessionKeys hsm serde signer.label policy s.machine
  · rfl

/-- A signing call whose inputs are signed first and whose rate is recorded last. -/
theorem sameSessionKeys_after {tidy : SignState K T → Prop} {refusal : ε} {first : SignM K T ε α}
    {rest : α → SignM K T ε β} {s : SignState K T} (hlocked : s.poisoned = true → tidy s)
    (hfirst : s.poisoned = false → wp first (fun _ s' => Left (tidy s) s.machine s'.machine)
      (fun _ s' => Left (tidy s) s.machine s'.machine) s)
    (hrest : ∀ a s₁, wp (rest a) (fun _ s' => s'.machine.sessionKeys = s₁.machine.sessionKeys)
      (fun _ s' => s'.machine.sessionKeys = s₁.machine.sessionKeys) s₁) :
    s.machine.SameSessionKeys (after (withLock refusal (first >>= rest)) s).machine ↔ tidy s := by
  have hleft {m : Machine K} (h : Left (tidy s) s.machine m) : s.machine.SameSessionKeys m ↔ tidy s := by
    rw [h.1.sameSessionKeys_iff fun _ => IsChild.isSessionKey, h.2]
  have hcall : wp (withLock refusal (first >>= rest))
      (fun _ s' => s.machine.SameSessionKeys s'.machine ↔ tidy s)
      (fun _ s' => s.machine.SameSessionKeys s'.machine ↔ tidy s) s := by
    refine wp_withLock _ _ _ _ s (fun hlock => iff_of_true (.of_eq rfl) (hlocked hlock)) (fun hlock => ?_)
    rw [wp_bind]
    refine wp_mono (hfirst hlock) (fun a s₁ h₁ => ?_) (fun e s₁ h₁ => ?_)
    · have hsame {m : Machine K} (h : m.sessionKeys = s₁.machine.sessionKeys) :
          s.machine.SameSessionKeys m ↔ tidy s := by
        rw [← hleft h₁, Machine.SameSessionKeys, Machine.SameSessionKeys, h]
      refine wp_mono (hrest a s₁) (fun _ _ h => hsame h) (fun e _ h => ?_)
      cases e <;> exact hsame h
    · cases e <;> exact hleft h₁
  exact after_of_wp hcall (fun _ _ h => h) (fun _ _ h => h)

end AttributeDerivation

/-- A signing call leaves the session-only keys on the token as they were exactly if every input it comes to is
tidy: the token refuses the first child of its path, or the path is empty, or it has one segment and the
call comes to its clean-up. -/
theorem session_keys_kept_iff (recipe : AttributeDerivation K D) (crates : Crates D) (elements : ElementsCrate K D X)
    (hsm : Hsm K D) (signer : Pkcs11Signer K D) (serde : Serde) (hbackend : signer.backend = recipe.toHsmBackend crates)
    (hquiet : ∀ taprootSigner, recipe.taprootSigner = some taprootSigner → taprootSigner.Quiet hsm) :
    (∀ s, s.machine.SameSessionKeys (after (signer.signTransaction crates hsm serde) s).machine ↔
      recipe.TidyTransaction crates hsm signer serde s) ∧
    ∀ s, s.machine.SameSessionKeys (after (signer.signPset crates elements hsm serde) s).machine ↔
      recipe.TidyPset crates elements hsm signer serde s := by
  constructor
  · intro s
    refine AttributeDerivation.sameSessionKeys_after (fun hlock h => ?_)
      (AttributeDerivation.wp_signInputs_left hbackend hquiet) fun result s₁ => ?_
    · rw [hlock] at h
      cases h
    · exact AttributeDerivation.recordIfSigned_leaves_sessionKeys serde _ result.1 result.2 s₁
  · intro s
    refine AttributeDerivation.sameSessionKeys_after (fun hlock h => ?_)
      (AttributeDerivation.wp_signPsetInputs_left hbackend) fun result s₁ => ?_
    · rw [hlock] at h
      cases h
    · rw [wp_bind]
      exact AttributeDerivation.recordIfSigned_leaves_sessionKeys serde _ result.1 _ s₁

namespace IdealVendor

theorem taprootSigner_quiet (hsm : Hsm Key Digest) : taprootSigner.Quiet hsm := by
  intro m handle label path digest
  simp only [taprootSigner, Program.wp_run_bind, Session.wp_sign]
  refine ⟨fun _ _ => .tick m, fun _ => ?_⟩
  split
  · exact .tick m
  · split <;> exact .tick m

/-- The state before a call on a PSBT, with the token as the ceremony for the empty path left it. -/
def beforeCall (inputs : List (Input Key)) : SignState Key (Psbt Key) := ⟨machine [], false, psbtOf inputs [], []⟩

/-- A taproot input with one leaf for the key at a path below the master. -/
def taprootInput (path : DerivationPath) : Input Key :=
  { wshInput [] none with
    bip32Derivation := ∅
    tapInternalKey := some 1
    tapKeyOrigins := (∅ : BTreeMap XOnlyPublicKey (List TapLeafHash × KeySource)).insert 2
      ([3], fingerprint, path) }

/-- How a call ends, and the session-only keys after it. -/
def callOn (inputs : List (Input Key)) : Bool × List (ObjectHandle × Object Key) :=
  match ((signer []).signTransaction crates token serde).run (beforeCall inputs) with
  | .ok _ s => (true, s.machine.sessionKeys)
  | .error _ s => (false, s.machine.sessionKeys)

end IdealVendor

open IdealVendor in
/-- The key for a path of one segment is destroyed. -/
theorem one_segment_kept : (machine []).SameSessionKeys
    (after ((signer []).signTransaction crates token serde) (beforeCall [wshInput [.normal 0] none])).machine := by
  have hquiet (ts : TaprootSigner Key Digest) (h : recipe.taprootSigner = some ts) : ts.Quiet token := by
    obtain rfl := Option.some.inj h
    exact taprootSigner_quiet token
  apply ((session_keys_kept_iff recipe crates elements token (signer []) serde rfl hquiet).1 _).mpr
  intro _ policy m _ _
  refine ⟨fun input hinput => ?_, fun _ _ _ => trivial⟩
  obtain rfl := Option.some.inj hinput
  rw [if_neg (by decide +kernel)]
  intro r hr
  have hpath : ((signer []).wshRequest crates (psbtOf [wshInput [.normal 0] none] []).unsignedTx 0
      (wshInput [.normal 0] none)).toOption.join.map (fun r => r.relativePath) = some [.normal 0] := by
    decide +kernel
  have hsame : (signer []).wshRequest crates (psbtOf [wshInput [.normal 0] none] []).unsignedTx 0
      (wshInput [.normal 0] none) = .ok (some r) := hr
  rw [hsame] at hpath
  rw [show r.relativePath = [.normal 0] from Option.some.inj hpath]
  exact fun key _ => ⟨rfl, rfl⟩

open IdealVendor in
/-- A P2WSH input whose key is two segments below the federation key is signed, and the key of the first segment
stays. A taproot input is refused for want of the other input's output, and its key stays. -/
theorem two_segments_and_early_return_leave_key :
    (machine []).sessionKeys = [] ∧
      callOn [wshInput [.normal 0, .normal 1] none] =
        (true, [(2, ⟨childKeyTemplate, some (child master (.normal 0))⟩)]) ∧
      callOn [taprootInput [.normal 0], { wshInput [] none with witnessUtxo := none }] =
        (false, [(2, ⟨childKeyTemplate, some (child master (.normal 0))⟩)]) := by
  refine ⟨?_, ?_, ?_⟩ <;> decide +kernel

end EmvaultPkcs11
