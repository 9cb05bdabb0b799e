import EmvaultPkcs11.SessionPrograms
import EmvaultPkcs11.SigningOutcome
import EmvaultPkcs11.SigningProgram

/-! Signing in parallel sessions. A signing call under a policy without a ceiling reads the policy, derives keys, signs
with them and destroys them again, so it cannot tell whether it is alone on the token. With the ceremonies and the
loads, any number of calls can be made at once, and each ends as it would end alone. -/

open Effect Program

namespace EmvaultPkcs11

variable {K D X T ε ε' α β γ ι : Type} {hsm : Hsm K D} {base : ObjectHandle} {ρ : Pairing} {m : Machine K}

/-! ### Parts of signing calls -/

/-- The same end of a computation: related results, or the same error. -/
def SameEnd (R : α → α → Prop) : Except ε α → Except ε α → Prop
  | .ok a, .ok a' => R a a'
  | .error e, .error e' => e' = e
  | _, _ => False

theorem SameEnd.imp {R R' : α → α → Prop} (hR : ∀ a a', R a a' → R' a a') {result result' : Except ε α}
    (h : SameEnd R result result') : SameEnd R' result result' := by
  cases result with
  | ok a =>
      cases result' with
      | ok a' => exact hR a a' h
      | error e => exact h
  | error e => cases result' <;> exact h

theorem SameEnd.eq {result result' : Except ε α} (h : SameEnd (fun a a' => a' = a) result result') :
    result' = result := by
  cases result with
  | ok a =>
      cases result' with
      | ok a' => exact congrArg Except.ok h
      | error e => exact h.elim
  | error e =>
      cases result' with
      | ok a' => exact h.elim
      | error e' => exact congrArg Except.error h

theorem Follows.outcome {R : Pairing → α → α → Prop} {p : TokenProgram K D ε α} :
    ∀ {ρ : Pairing} {m : Machine K} {thread : TokenProgram K D ε α}, Follows hsm base R ρ p m thread →
      Follows hsm base (fun ρ => SameEnd (R ρ)) ρ (p.outcome : TokenProgram K D ε' _) m thread.outcome := by
  induction p with
  | done a =>
      intro ρ m thread h
      obtain ⟨a', rfl, hR⟩ := h
      exact (follows_done _ _ m).mpr hR
  | stop e =>
      intro ρ m thread h
      obtain rfl : thread = .stop e := h
      exact (follows_done _ _ m).mpr rfl
  | call c next ih =>
      intro ρ m thread h
      obtain ⟨c', next', rfl, hcall, hnext⟩ := h
      exact ⟨c', fun reply => (next' reply).outcome, rfl, hcall, fun ρ' reply' hproper' hle hreply =>
        ih _ (hnext ρ' reply' hproper' hle hreply)⟩

/-- Among other sessions, the part of a signing call does what it does alone from `m`, on any transaction. -/
def Walks (hsm : Hsm K D) (base : ObjectHandle) (R : Pairing → α → α → Prop) (ρ : Pairing) (m : Machine K)
    (x x' : SignCalls K D T ε α) : Prop :=
  ∀ t, Follows hsm base (fun ρ r r' => r'.2 = r.2 ∧ SameEnd (R ρ) r.1 r'.1) ρ (x t) m (x' t)

namespace Walks

variable {R : Pairing → α → α → Prop} {S : Pairing → β → β → Prop}

theorem pure {a a' : α} (h : R ρ a a') :
    Walks hsm base R ρ m (Pure.pure a : SignCalls K D T ε α) (Pure.pure a') :=
  fun _ => (follows_done _ _ m).mpr ⟨rfl, h⟩

theorem ofResult (x : Except (Stop ε) α) :
    Walks hsm base Same ρ m (CallM.ofResult x : SignCalls K D T ε α) (CallM.ofResult x) := by
  refine fun t => (follows_done _ _ m).mpr ⟨rfl, ?_⟩
  cases x <;> exact rfl

theorem throw (e : Stop ε) :
    Walks hsm base R ρ m (CallM.ofResult (.error e) : SignCalls K D T ε α) (CallM.ofResult (.error e)) :=
  fun _ => (follows_done _ _ m).mpr ⟨rfl, rfl⟩

theorem orErr (x : Except ε α) :
    Walks hsm base Same ρ m (CallM.orErr x : SignCalls K D T ε α) (CallM.orErr x) := ofResult _

theorem current : Walks hsm base Same ρ m (CallM.current : SignCalls K D T ε T) CallM.current :=
  fun _ => (follows_done _ _ m).mpr ⟨rfl, rfl⟩

theorem update (f : T → T) : Walks hsm base Same ρ m (CallM.update f : SignCalls K D T ε Unit) (CallM.update f) :=
  fun _ => (follows_done _ _ m).mpr ⟨rfl, rfl⟩

theorem bind {x x' : SignCalls K D T ε α} {f f' : α → SignCalls K D T ε β} (hproper : ρ.Proper base)
    (hx : Walks hsm base R ρ m x x')
    (hf : ∀ (ρ' : Pairing) a a' m', ρ'.Proper base → ρ ≤ ρ' → R ρ' a a' → Walks hsm base S ρ' m' (f a) (f' a')) :
    Walks hsm base S ρ m (x >>= f) (x' >>= f') := by
  intro t
  refine Follows.bind hproper (hx t) fun ρ' r r' m' hproper' hle h => ?_
  obtain ⟨r, t₁⟩ := r
  obtain ⟨r', t₁'⟩ := r'
  obtain ⟨rfl, hend⟩ := h
  cases r with
  | ok a =>
      cases r' with
      | ok a' => exact hf ρ' a a' m' hproper' hle hend t₁'
      | error e => exact hend.elim
  | error e =>
      cases r' with
      | ok a' => exact hend.elim
      | error e' => exact (follows_done _ _ m').mpr ⟨rfl, hend⟩

theorem calls {p p' : TokenProgram K D ε' α} (hproper : ρ.Proper base) (wrap : ε' → ε)
    (h : Follows hsm base R ρ p m p') :
    Walks hsm base R ρ m (CallM.calls wrap p : SignCalls K D T ε α) (CallM.calls wrap p') := by
  intro t
  refine Follows.bind hproper h.outcome fun ρ' r r' m' _ _ hend => ?_
  cases r with
  | ok a =>
      cases r' with
      | ok a' => exact (follows_done _ _ m').mpr ⟨rfl, hend⟩
      | error e => exact hend.elim
  | error e =>
      cases r' with
      | ok a' => exact hend.elim
      | error e' =>
          obtain rfl : e' = e := hend
          exact (follows_done _ _ m').mpr ⟨rfl, rfl⟩

theorem attempt {x x' : SignCalls K D T ε α} (hproper : ρ.Proper base) (hx : Walks hsm base Same ρ m x x') :
    Walks hsm base Same ρ m (CallM.attempt x : SignCalls K D T ε' (Except ε α)) (CallM.attempt x') := by
  intro t
  refine Follows.bind hproper (hx t) fun ρ' r r' m' _ _ h => ?_
  obtain ⟨r, t₁⟩ := r
  obtain ⟨r', t₁'⟩ := r'
  obtain ⟨rfl, hend⟩ := h
  cases r with
  | ok a =>
      cases r' with
      | ok a' =>
          obtain rfl : a' = a := hend
          exact (follows_done _ _ m').mpr ⟨rfl, rfl⟩
      | error e => exact hend.elim
  | error e =>
      cases r' with
      | ok a' => exact hend.elim
      | error e' =>
          obtain rfl : e' = e := hend
          cases e' <;> exact (follows_done _ _ m').mpr ⟨rfl, rfl⟩

/-- Loops. -/
theorem foldlM {f f' : β → γ → SignCalls K D T ε β}
    (hf : ∀ (ρ' : Pairing) b c m', ρ'.Proper base → ρ ≤ ρ' → Walks hsm base Same ρ' m' (f b c) (f' b c))
    (l : List γ) : ∀ {ρ' : Pairing} {m : Machine K} (b : β), ρ'.Proper base → ρ ≤ ρ' →
      Walks hsm base Same ρ' m (l.foldlM f b) (l.foldlM f' b) := by
  induction l with
  | nil => exact fun b _ _ => pure rfl
  | cons c l ih =>
      intro ρ' m b hproper hle
      refine bind hproper (hf ρ' b c m hproper hle) fun ρ'' b' b'' m' hproper' hle' h => ?_
      obtain rfl := h
      exact ih b'' hproper' (hle.trans hle')

end Walks

/-! ### Signers over the blanket backend -/

/-- A Schnorr signer that uses the handle it is given and no other. -/
def TaprootSigner.Follows (hsm : Hsm K D) (taproot : TaprootSigner K D) : Prop :=
  ∀ (base : ObjectHandle) (ρ : Pairing) (m : Machine K) (handle handle' : ObjectHandle) (label : String)
    (path : DerivationPath) (digest : D), ρ.Proper base → ρ handle handle' →
    EmvaultPkcs11.Follows hsm base Same ρ (taproot.signSchnorr handle label path digest) m
      (taproot.signSchnorr handle' label path digest)

/-- A signer over the blanket backend, whose key was on the token at the start. -/
structure Pkcs11Signer.Ready (hsm : Hsm K D) (crates : Crates D) (recipe : AttributeDerivation K D)
    (base : ObjectHandle) (signer : Pkcs11Signer K D) : Prop where
  backend : signer.backend = recipe.toHsmBackend crates
  held : signer.loaded.privateKey < base
  taproot : ∀ taproot, recipe.taprootSigner = some taproot → taproot.Follows hsm

section

variable {signer : Pkcs11Signer K D} {crates : Crates D} {elements : ElementsCrate K D X} {serde : Serde}
  {recipe : AttributeDerivation K D}

/-- The handle a signature is made with: the federation key's, or a new one. -/
def SigningHandle (base federation : ObjectHandle) : Pairing → ObjectHandle → ObjectHandle → Prop := fun ρ k k' =>
  ρ k k' ∧ (k ≠ federation → base ≤ k)

theorem walks_signLeaf {taprootSigner : TaprootSigner K D} (htaproot : taprootSigner.Follows hsm)
    (hproper : ρ.Proper base) {handle handle' : ObjectHandle} (hpair : ρ handle handle') (inputIdx : Nat)
    (prevouts : List TxOut) (sighashType : TapSighashType) (ourXonly : XOnlyPublicKey) (fullPath : DerivationPath)
    (leafHash : TapLeafHash) :
    Walks hsm base Same ρ m
      (CallsOf.signLeaf signer crates taprootSigner inputIdx prevouts sighashType handle ourXonly fullPath leafHash)
      (CallsOf.signLeaf signer crates taprootSigner inputIdx prevouts sighashType handle' ourXonly fullPath
        leafHash) := by
  refine Walks.bind hproper .current fun ρ₁ psbt psbt' m₁ hproper₁ hle₁ h => ?_
  obtain rfl := h
  refine Walks.bind hproper₁ (.orErr _) fun ρ₂ digest digest' m₂ hproper₂ hle₂ h => ?_
  obtain rfl := h
  refine Walks.bind hproper₂ (.calls hproper₂ _ (htaproot base ρ₂ m₂ _ _ _ _ _ hproper₂ (hle₂ _ _ (hle₁ _ _ hpair))))
    fun ρ₃ sig sig' m₃ _ _ h => ?_
  obtain rfl := h
  exact .update _

variable (hready : signer.Ready hsm crates recipe base) (hproper : ρ.Proper base)
include hready hproper

theorem walks_signingHandle (fail : String → ε) (relativePath : DerivationPath) :
    Walks hsm base (SigningHandle base signer.loaded.privateKey) ρ m
      (CallsOf.signingHandle signer crates fail relativePath : SignCalls K D T ε _)
      (CallsOf.signingHandle signer crates fail relativePath) := by
  have hfederation := hproper.old _ hready.held
  unfold CallsOf.signingHandle
  rw [hready.backend]
  split
  · exact .pure ⟨hfederation, fun hne => (hne rfl).elim⟩
  next hne =>
    refine .calls hproper _ ((recipe.follows_derivePath relativePath hproper hfederation).mono
      fun ρ' k k' h => ⟨h.1, fun _ => ?_⟩)
    exact h.2 (Or.inr fun hnil => hne (List.isEmpty_iff.mpr hnil))

theorem walks_destroyChild {handle handle' : ObjectHandle}
    (h : SigningHandle base signer.loaded.privateKey ρ handle handle') :
    Walks hsm base Same ρ m (CallsOf.destroyChild signer handle : SignCalls K D T ε Unit)
      (CallsOf.destroyChild signer handle') := by
  have hsame := hproper.unique h.1 (hproper.old _ hready.held)
  unfold CallsOf.destroyChild
  by_cases hne : handle = signer.loaded.privateKey
  · rw [if_neg (not_not.mpr hne), if_neg (not_not.mpr (hsame.mp hne))]
    exact .pure rfl
  · rw [if_pos hne, if_pos fun heq => hne (hsame.mpr heq)]
    exact .calls hproper _ (follows_tryDestroyObject h.1 (h.2 hne))

theorem walks_signSegwit {handle handle' : ObjectHandle} (hpair : ρ handle handle') (fail : String → ε) (digest : D) :
    Walks hsm base Same ρ m (CallsOf.signSegwit signer crates fail handle digest : SignCalls K D T ε _)
      (CallsOf.signSegwit signer crates fail handle' digest) := by
  have hsign : Follows hsm base Same ρ (signWithLowS crates handle digest : TokenProgram K D _ _) m
      (signWithLowS crates handle' digest) := by
    refine Follows.bind hproper (follows_sign hpair digest) fun ρ' raw raw' m' _ _ h => ?_
    obtain rfl := h
    split
    · exact (follows_stop _ _ m').mpr rfl
    · cases crates.fromCompact raw'.bytes with
      | error e => exact (follows_stop _ _ m').mpr rfl
      | ok sig => exact (follows_done _ _ m').mpr rfl
  unfold CallsOf.signSegwit
  rw [hready.backend]
  exact .calls hproper _ (.mapError _ hsign)

/-- A signature is the same, whatever handles the key is behind. -/
theorem walks_signRequest (fail : String → ε) (request : EcdsaRequest D) :
    Walks hsm base Same ρ m (CallsOf.signRequest signer crates fail request : SignCalls K D T ε _)
      (CallsOf.signRequest signer crates fail request) := by
  refine Walks.bind hproper (walks_signingHandle hready hproper fail _) fun ρ₁ k k' m₁ hproper₁ _ hk => ?_
  refine Walks.bind hproper₁ (.attempt hproper₁ (walks_signSegwit hready hproper₁ hk.1 fail _))
    fun ρ₂ result result' m₂ hproper₂ hle₂ h => ?_
  obtain rfl := h
  refine Walks.bind hproper₂ (walks_destroyChild hready hproper₂ ⟨hle₂ _ _ hk.1, hk.2⟩)
    fun ρ₃ _ _ m₃ hproper₃ _ _ => ?_
  refine Walks.bind hproper₃ (.orErr result') fun ρ₄ sig sig' m₄ _ _ h => ?_
  obtain rfl := h
  exact .pure rfl

theorem walks_signWshInput (inputIdx : Nat) (input : Input K) :
    Walks hsm base Same ρ m (CallsOf.signWshInput signer crates inputIdx input)
      (CallsOf.signWshInput signer crates inputIdx input) := by
  refine Walks.bind hproper .current fun ρ₁ psbt psbt' m₁ hproper₁ _ h => ?_
  obtain rfl := h
  refine Walks.bind hproper₁ (.orErr _) fun ρ₂ request request' m₂ hproper₂ _ h => ?_
  obtain rfl := h
  cases request' with
  | none => exact .pure rfl
  | some request =>
      refine Walks.bind hproper₂ (walks_signRequest hready hproper₂ _ request) fun ρ₃ sig sig' m₃ hproper₃ _ h => ?_
      obtain rfl := h
      exact Walks.bind hproper₃ (.update _) fun ρ₄ _ _ m₄ _ _ _ => .pure rfl

theorem walks_signLeaves {taprootSigner : TaprootSigner K D} (htaproot : taprootSigner.Follows hsm) (inputIdx : Nat)
    (input : Input K) (relativePath : DerivationPath) (ourXonly : XOnlyPublicKey) (leafHashes : List TapLeafHash)
    (fullPath : DerivationPath) :
    Walks hsm base Same ρ m
      (CallsOf.signLeaves signer crates taprootSigner inputIdx input relativePath ourXonly leafHashes fullPath)
      (CallsOf.signLeaves signer crates taprootSigner inputIdx input relativePath ourXonly leafHashes fullPath) := by
  refine Walks.bind hproper (walks_signingHandle hready hproper _ _) fun ρ₁ k k' m₁ hproper₁ _ hk => ?_
  refine Walks.bind hproper₁ .current fun ρ₂ psbt psbt' m₂ hproper₂ hle₂ h => ?_
  obtain rfl := h
  refine Walks.bind hproper₂ (.orErr _) fun ρ₃ prevouts prevouts' m₃ hproper₃ hle₃ h => ?_
  obtain rfl := h
  refine Walks.bind hproper₃ (.orErr _) fun ρ₄ sighashType sighashType' m₄ hproper₄ hle₄ h => ?_
  obtain rfl := h
  have hpair : ρ₄ k k' := hle₄ _ _ (hle₃ _ _ (hle₂ _ _ hk.1))
  refine Walks.bind hproper₄ (Walks.foldlM (fun ρ' signed leafHash m' hproper' hle' => ?_) leafHashes false hproper₄
    le_rfl) fun ρ₅ signed signed' m₅ hproper₅ hle₅ h => ?_
  · refine Walks.bind hproper' (walks_signLeaf htaproot hproper' (hle' _ _ hpair) _ _ _ _ _ _)
      fun ρ'' _ _ m'' _ _ _ => ?_
    exact .pure rfl
  · obtain rfl := h
    exact Walks.bind hproper₅ (walks_destroyChild hready hproper₅ ⟨hle₅ _ _ hpair, hk.2⟩)
      fun ρ₆ _ _ m₆ _ _ _ => .pure rfl

theorem walks_signTaprootInput (inputIdx : Nat) (input : Input K) :
    Walks hsm base Same ρ m (CallsOf.signTaprootInput signer crates inputIdx input)
      (CallsOf.signTaprootInput signer crates inputIdx input) := by
  unfold CallsOf.signTaprootInput
  cases signer.ourTapOrigin input with
  | none => exact .pure rfl
  | some origin =>
      obtain ⟨ourXonly, leafHashes, fullPath⟩ := origin
      dsimp only
      split
      · exact .pure rfl
      · have hbackend : signer.backend.taprootSigner = recipe.taprootSigner := by
          rw [hready.backend]
          rfl
        rw [hbackend]
        cases htaproot : recipe.taprootSigner with
        | none => exact .throw _
        | some taprootSigner =>
            refine Walks.bind hproper (.orErr _) fun ρ₁ path path' m₁ hproper₁ _ h => ?_
            obtain rfl := h
            exact walks_signLeaves hready hproper₁ (hready.taproot _ htaproot) _ _ _ _ _ _

theorem walks_signInput (inputIdx : Nat) :
    Walks hsm base Same ρ m (CallsOf.signInput signer crates inputIdx) (CallsOf.signInput signer crates inputIdx) := by
  refine Walks.bind hproper .current fun ρ₁ psbt psbt' m₁ hproper₁ _ h => ?_
  obtain rfl := h
  cases psbt'.inputs[inputIdx]? with
  | none => exact .throw _
  | some input =>
      dsimp only
      split
      · exact walks_signTaprootInput hready hproper₁ inputIdx input
      · exact walks_signWshInput hready hproper₁ inputIdx input

theorem walks_signPsetInput (unsignedTx : X) (inputIdx : Nat) :
    Walks hsm base Same ρ m (CallsOf.signPsetInput signer crates elements unsignedTx inputIdx)
      (CallsOf.signPsetInput signer crates elements unsignedTx inputIdx) := by
  refine Walks.bind hproper .current fun ρ₁ pset pset' m₁ hproper₁ _ h => ?_
  obtain rfl := h
  cases pset'.inputs[inputIdx]? with
  | none => exact .throw _
  | some input =>
      refine Walks.bind hproper₁ (.orErr _) fun ρ₂ request request' m₂ hproper₂ _ h => ?_
      obtain rfl := h
      cases request' with
      | none => exact .pure rfl
      | some request =>
          refine Walks.bind hproper₂ (walks_signRequest hready hproper₂ _ request)
            fun ρ₃ sig sig' m₃ hproper₃ _ h => ?_
          obtain rfl := h
          exact Walks.bind hproper₃ (.update _) fun ρ₄ _ _ m₄ _ _ _ => .pure rfl

end

/-! ### Whole calls -/

section

variable {signer : Pkcs11Signer K D} {crates : Crates D} {elements : ElementsCrate K D X} {serde : Serde}
  {recipe : AttributeDerivation K D}

/-- The policy the token holds for the signer has no ceiling. -/
def Pkcs11Signer.Unlimited (hsm : Hsm K D) (serde : Serde) (m : Machine K) (signer : Pkcs11Signer K D) : Prop :=
  ∀ policy, signer.storedPolicy hsm serde m = .ok policy → policy.maxSignaturesPerHour = none

theorem walks_loadPolicy (hunlimited : signer.Unlimited hsm serde m) (hproper : ρ.Proper base)
    (wrap : Pkcs11Error → ε) :
    Walks hsm base (fun _ policy policy' => policy' = policy ∧ policy.maxSignaturesPerHour = none) ρ m
      (CallM.calls wrap (loadPolicy serde signer.label) : SignCalls K D T ε _)
      (CallM.calls wrap (loadPolicy serde signer.label)) := by
  have hload := (follows_loadRecord hproper (policyLabel signer.label)
    MinimalHsmPolicy.permissive serde.policyFromSlice).and_wp
      (wp_loadRecord hsm (policyLabel signer.label) MinimalHsmPolicy.permissive serde.policyFromSlice m)
  refine .calls hproper wrap (hload.mono fun ρ' policy policy' h => ?_)
  obtain ⟨hsame, m', hstored, _⟩ := h
  exact ⟨hsame, hunlimited policy hstored⟩

/-- Without a ceiling, nothing is recorded. -/
theorem walks_recordIfSigned (hproper : ρ.Proper base) (fail : String → ε) {policy : MinimalHsmPolicy}
    (hnone : policy.maxSignaturesPerHour = none) (signedAny : Bool) :
    Walks hsm base Same ρ m
      (CallsOf.recordIfSigned signer crates serde fail policy signedAny : SignCalls K D T ε Unit)
      (CallsOf.recordIfSigned signer crates serde fail policy signedAny) := by
  unfold CallsOf.recordIfSigned
  split
  · rw [checkAndRecordSigrate, hnone]
    exact .calls hproper _ ((follows_done () () m).mpr rfl)
  · exact .pure rfl

variable (hready : signer.Ready hsm crates recipe base) (hunlimited : signer.Unlimited hsm serde m)
  (hproper : ρ.Proper base)
include hready hunlimited hproper

theorem walks_signTransaction :
    Walks hsm base Same ρ m (CallsOf.signTransaction signer crates serde)
      (CallsOf.signTransaction signer crates serde) := by
  have hinputs : Walks hsm base (fun _ r r' => r' = r ∧ r.1.maxSignaturesPerHour = none) ρ m
      (CallsOf.signInputs signer crates serde) (CallsOf.signInputs signer crates serde) := by
    refine Walks.bind hproper (walks_loadPolicy hunlimited hproper _) fun ρ₁ policy policy' m₁ hproper₁ _ h => ?_
    obtain ⟨rfl, hnone⟩ := h
    refine Walks.bind hproper₁ .current fun ρ₂ psbt psbt' m₂ hproper₂ _ h => ?_
    obtain rfl := h
    refine Walks.bind hproper₂ (.ofResult _) fun ρ₃ _ _ m₃ hproper₃ _ _ => ?_
    refine Walks.bind hproper₃ (Walks.foldlM (fun ρ' signedAny inputIdx m' hproper' _ => ?_) _ false hproper₃ le_rfl)
      fun ρ₄ signedAny signedAny' m₄ _ _ h => ?_
    · refine Walks.bind hproper' (walks_signInput hready hproper' inputIdx) fun ρ'' signed signed' m'' _ _ h => ?_
      obtain rfl := h
      exact .pure rfl
    · obtain rfl := h
      exact .pure ⟨rfl, hnone⟩
  refine Walks.bind hproper hinputs fun ρ' r r' m' hproper' _ h => ?_
  obtain ⟨rfl, hnone⟩ := h
  exact walks_recordIfSigned hproper' _ hnone _

theorem walks_signPset :
    Walks hsm base Same ρ m (CallsOf.signPset signer crates elements serde)
      (CallsOf.signPset signer crates elements serde) := by
  have hinputs : Walks hsm base (fun _ r r' => r' = r ∧ r.1.maxSignaturesPerHour = none) ρ m
      (CallsOf.signPsetInputs signer crates elements serde)
      (CallsOf.signPsetInputs signer crates elements serde) := by
    refine Walks.bind hproper (walks_loadPolicy hunlimited hproper _) fun ρ₁ policy policy' m₁ hproper₁ _ h => ?_
    obtain ⟨rfl, hnone⟩ := h
    refine Walks.bind hproper₁ .current fun ρ₂ pset pset' m₂ hproper₂ _ h => ?_
    obtain rfl := h
    refine Walks.bind hproper₂ (.orErr _) fun ρ₃ unsignedTx unsignedTx' m₃ hproper₃ _ h => ?_
    obtain rfl := h
    refine Walks.bind hproper₃ (Walks.foldlM (fun ρ' signed inputIdx m' hproper' _ => ?_) _ 0 hproper₃ le_rfl)
      fun ρ₄ signed signed' m₄ _ _ h => ?_
    · refine Walks.bind hproper' (walks_signPsetInput hready hproper' _ inputIdx) fun ρ'' one one' m'' _ _ h => ?_
      obtain rfl := h
      exact .pure rfl
    · obtain rfl := h
      exact .pure ⟨rfl, hnone⟩
  refine Walks.bind hproper hinputs fun ρ₁ r r' m₁ hproper₁ _ h => ?_
  obtain ⟨rfl, hnone⟩ := h
  exact Walks.bind hproper₁ (walks_recordIfSigned hproper₁ _ hnone _) fun ρ₂ _ _ m₂ _ _ _ => .pure rfl

end

end EmvaultPkcs11
