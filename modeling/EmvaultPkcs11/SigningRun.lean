import EmvaultPkcs11.SigningAgenda
import EmvaultPkcs11.PolicyStore

/-! A signing call works through the agenda of its transaction. What is assumed of the token and of
the vendor's programs is a `SigningContract`; from any contract it follows that a call has written a
signature for each target up to where it ended, in order, and nothing else. The contract is chosen by
the result it is needed for: the trivial one assumes nothing of the vendor at all. -/

open Effect Agenda

namespace EmvaultPkcs11

variable {K D X : Type}

/-- What a result assumes of the vendor: a condition on the token between signatures (`idle`), one
while the handle for a path is in use (`holding`), what a returned signature satisfies (`signed`), what
is known of a target the vendor's programs fail on (`refused`), and whether they never panic (`calm`). -/
structure SigningContract (hsm : Hsm K D) (signer : Pkcs11Signer K D) where
  idle : Machine K → Prop
  holding : DerivationPath → ObjectHandle → Machine K → Prop
  signed : Target D → Signature K → Prop
  refused : Target D → Prop
  calm : Prop
  idle_of_ticked : ∀ {m m'}, idle m → m.Ticked m' → idle m'
  idle_of_holding : ∀ {path handle m}, holding path handle m → idle m
  holding_federation : ∀ {m}, idle m → holding [] signer.loaded.privateKey m
  derivePath : ∀ path m, path ≠ [] → idle m →
    wp (Program.run hsm.exec (signer.backend.derivePath signer.loaded.privateKey path))
      (fun handle m' => holding path handle m')
      (fun e m' => idle m' ∧ (∀ target, target.relativePath = path → refused target) ∧
        (calm → ∃ a, e = .err a)) m
  signEcdsa : ∀ segwit, signer.backend.segwitSigner = some segwit →
    ∀ target publicKey sighashType, target.key = .ecdsa publicKey sighashType →
    ∀ handle m, holding target.relativePath handle m →
    wp (Program.run hsm.exec (segwit.signEcdsa handle target.digest))
      (fun sig m' => holding target.relativePath handle m' ∧ signed target sig)
      (fun e m' => holding target.relativePath handle m' ∧ refused target ∧ (calm → ∃ a, e = .err a)) m
  noSegwit : signer.backend.segwitSigner = none →
    ∀ target publicKey sighashType, target.key = .ecdsa publicKey sighashType → refused target
  signSchnorr : ∀ taproot, signer.backend.taprootSigner = some taproot →
    ∀ target xonly leafHash sighashType fullPath,
    target.key = .schnorr xonly leafHash sighashType fullPath →
    ∀ handle m, holding target.relativePath handle m →
    wp (Program.run hsm.exec (taproot.signSchnorr handle signer.label fullPath target.digest))
      (fun sig m' => holding target.relativePath handle m' ∧ signed target sig)
      (fun e m' => idle m' ∧ refused target ∧ (calm → ∃ a, e = .err a)) m
  idle_tick : ∀ {path handle m}, holding path handle m → idle m.tick
  idle_destroy : ∀ {path handle m object}, holding path handle m →
    handle ≠ signer.loaded.privateKey → m.object? handle = some object →
    idle (m.destroy handle).tick

/-- Nothing is assumed, and nothing is said of the signatures. -/
def SigningContract.trivial (hsm : Hsm K D) (signer : Pkcs11Signer K D) :
    SigningContract hsm signer where
  idle _ := True
  holding _ _ _ := True
  signed _ _ := True
  refused _ := True
  calm := False
  idle_of_ticked _ _ := True.intro
  idle_of_holding _ := True.intro
  holding_federation _ := True.intro
  derivePath _ m _ _ := wp_mono (hsm.wp_calls_le _ m) (fun _ _ _ => True.intro)
    (fun _ _ _ => ⟨True.intro, fun _ _ => True.intro, False.elim⟩)
  signEcdsa _ _ _ _ _ _ _ m _ := wp_mono (hsm.wp_calls_le _ m) (fun _ _ _ => ⟨True.intro, True.intro⟩)
    (fun _ _ _ => ⟨True.intro, True.intro, False.elim⟩)
  noSegwit _ _ _ _ _ := True.intro
  signSchnorr _ _ _ _ _ _ _ _ _ m _ := wp_mono (hsm.wp_calls_le _ m)
    (fun _ _ _ => ⟨True.intro, True.intro⟩) (fun _ _ _ => ⟨True.intro, True.intro, False.elim⟩)
  idle_tick _ := True.intro
  idle_destroy _ _ _ := True.intro

@[simp] theorem SigningContract.trivial_signed (hsm : Hsm K D) (signer : Pkcs11Signer K D) :
    (SigningContract.trivial hsm signer).signed = fun _ _ => True := rfl

/-! ### What a call has written -/

section

variable {T : Type} {hsm : Hsm K D} {signer : Pkcs11Signer K D}

/-- From `s₀` to `s` the call has put exactly `ws` into the transaction, at times the host's clock
showed in between. -/
structure Advance (hsm : Hsm K D) (insert : T → Nat → Insertion K → T) (s₀ : SignState K T)
    (ws : List (Written K)) (s : SignState K T) : Prop where
  written : s.written = s₀.written ++ ws
  transaction : s.transaction =
    ws.foldl (fun tx w => insert tx w.inputIdx w.insertion) s₀.transaction
  calls : s₀.machine.calls ≤ s.machine.calls
  times : ∀ w ∈ ws, ∃ c, s₀.machine.calls ≤ c ∧ c ≤ s.machine.calls ∧ w.time = hsm.clock c

/-- A written signature is the one a target asked for. -/
def Answers (crates : Crates D) (signed : Target D → Signature K → Prop) (target : Target D)
    (w : Written K) : Prop :=
  w.inputIdx = target.inputIdx ∧ ∃ sig, signed target sig ∧ w.insertion = target.insertion crates sig

/-- From `s₀` to `s` the call has written one signature for each of the targets, in order. -/
def Wrote (crates : Crates D) (hsm : Hsm K D) (signed : Target D → Signature K → Prop)
    (insert : T → Nat → Insertion K → T) (s₀ : SignState K T) (targets : List (Target D))
    (s : SignState K T) : Prop :=
  ∃ ws, Advance hsm insert s₀ ws s ∧ List.Forall₂ (Answers crates signed) targets ws

variable {crates : Crates D} {signed : Target D → Signature K → Prop}
  {insert : T → Nat → Insertion K → T} {s₀ s : SignState K T} {targets : List (Target D)}

theorem Wrote.refl (s : SignState K T) : Wrote crates hsm signed insert s [] s :=
  ⟨[], ⟨by simp, rfl, Nat.le_refl _, by simp⟩, .nil⟩

theorem Wrote.transaction_nil (h : Wrote crates hsm signed insert s₀ [] s) :
    s.transaction = s₀.transaction := by
  obtain ⟨ws, hadvance, hanswers⟩ := h
  rw [hadvance.transaction, List.forall₂_nil_left_iff.mp hanswers, List.foldl_nil]

theorem Wrote.withMachine (h : Wrote crates hsm signed insert s₀ targets s) {m : Machine K}
    (hcalls : s.machine.calls ≤ m.calls) :
    Wrote crates hsm signed insert s₀ targets { s with machine := m } := by
  obtain ⟨ws, hadvance, hanswers⟩ := h
  refine ⟨ws, ⟨hadvance.written, hadvance.transaction, hadvance.calls.trans hcalls,
    fun w hw => ?_⟩, hanswers⟩
  obtain ⟨c, hfrom, hto, htime⟩ := hadvance.times w hw
  exact ⟨c, hfrom, hto.trans hcalls, htime⟩

/-- Reading the transaction in a way insertions do not change gives what it gave at the start. -/
theorem Wrote.view {V : Type} {view : T → V}
    (hview : ∀ tx inputIdx insertion, view (insert tx inputIdx insertion) = view tx)
    (h : Wrote crates hsm signed insert s₀ targets s) : view s.transaction = view s₀.transaction := by
  have hfold (ws : List (Written K)) :
      ∀ tx, view (ws.foldl (fun tx w => insert tx w.inputIdx w.insertion) tx) = view tx := by
    induction ws with
    | nil => exact fun tx => rfl
    | cons w ws ih => exact fun tx => by rw [List.foldl_cons, ih, hview]
  obtain ⟨ws, hadvance, _⟩ := h
  rw [hadvance.transaction, hfold]

/-- Putting a signature into the transaction. -/
theorem wp_putSignature {ε : Type} (h : Wrote crates hsm signed insert s₀ targets s)
    {target : Target D} {sig : Signature K} (hsig : signed target sig) {P : Machine K → Prop}
    (hmachine : P s.machine) (E : Stop ε → SignState K T → Prop) :
    wp (putSignature hsm insert target.inputIdx (target.insertion crates sig) : SignM K T ε Unit)
      (fun _ s' => Wrote crates hsm signed insert s₀ (targets ++ [target]) s' ∧ P s'.machine) E s := by
  obtain ⟨ws, hadvance, hanswers⟩ := h
  rw [putSignature, wp_modify]
  refine ⟨⟨ws ++ [⟨target.inputIdx, target.insertion crates sig, hsm.clock s.machine.calls⟩],
    ⟨?_, ?_, hadvance.calls, fun w hw => ?_⟩, ?_⟩, hmachine⟩
  · simp only [hadvance.written, List.append_assoc]
  · simp only [hadvance.transaction, List.foldl_append, List.foldl_cons, List.foldl_nil]
  · rcases List.mem_append.mp hw with hw | hw
    · exact hadvance.times w hw
    · rw [List.mem_singleton.mp hw]
      exact ⟨s.machine.calls, hadvance.calls, Nat.le_refl _, rfl⟩
  · exact List.rel_append hanswers (.cons ⟨rfl, sig, hsig, rfl⟩ .nil)

/-- A token program inside a call changes nothing but the token. -/
theorem wp_onToken {ε ε' α : Type} {wrap : ε' → ε} {p : TokenProgram K D ε' α}
    {Q : α → Machine K → Prop} {E : Stop ε' → Machine K → Prop}
    (hp : wp (Program.run hsm.exec p) Q E s.machine)
    (h : Wrote crates hsm signed insert s₀ targets s) :
    wp (onToken hsm wrap p : SignM K T ε α)
      (fun a s' => Wrote crates hsm signed insert s₀ targets s' ∧ s'.transaction = s.transaction ∧
        Q a s'.machine)
      (fun e s' => Wrote crates hsm signed insert s₀ targets s' ∧
        ∃ e', e = e'.map wrap ∧ E e' s'.machine) s := by
  rw [onToken, wp_mapErr, wp_onPart]
  refine wp_mono (wp_and hp (hsm.wp_calls_le p s.machine)) (fun a m hm => ?_) (fun e m hm => ?_)
  · exact ⟨h.withMachine hm.2, rfl, hm.1⟩
  · exact ⟨h.withMachine hm.2, e, rfl, hm.1⟩

end

/-! ### One signature -/

namespace SigningContract

variable {T ε : Type} {hsm : Hsm K D} {signer : Pkcs11Signer K D}
  (contract : SigningContract hsm signer) {crates : Crates D} {insert : T → Nat → Insertion K → T}
  {s₀ s : SignState K T} {targets : List (Target D)} (fail : String → ε)

theorem wp_signingHandle (path : DerivationPath)
    (h : Wrote crates hsm contract.signed insert s₀ targets s) (hidle : contract.idle s.machine) :
    wp (signer.signingHandle crates hsm fail path : SignM K T ε ObjectHandle)
      (fun handle s' => Wrote crates hsm contract.signed insert s₀ targets s' ∧
        s'.transaction = s.transaction ∧ contract.holding path handle s'.machine)
      (fun e s' => Wrote crates hsm contract.signed insert s₀ targets s' ∧ contract.idle s'.machine ∧
        (∀ target, target.relativePath = path → contract.refused target) ∧
        (contract.calm → ∃ a, e = .err a)) s := by
  unfold Pkcs11Signer.signingHandle
  cases path with
  | nil => exact ⟨h, rfl, contract.holding_federation hidle⟩
  | cons child path =>
      simp only [List.isEmpty_cons, Bool.false_eq_true, if_false]
      refine wp_mono (wp_onToken (contract.derivePath (child :: path) s.machine (by simp) hidle) h)
        (fun handle s' hs => hs) (fun e s' hs => ?_)
      obtain ⟨hwrote, e', rfl, hidle', hrefused, hcalm⟩ := hs
      exact ⟨hwrote, hidle', hrefused, fun h => Stop.exists_map_eq_err _ (hcalm h)⟩

theorem wp_destroyChild {path : DerivationPath} {handle : ObjectHandle}
    (h : Wrote crates hsm contract.signed insert s₀ targets s)
    (hholding : contract.holding path handle s.machine) (E : Stop ε → SignState K T → Prop) :
    wp (signer.destroyChild hsm handle : SignM K T ε Unit)
      (fun _ s' => Wrote crates hsm contract.signed insert s₀ targets s' ∧
        contract.idle s'.machine) E s := by
  unfold Pkcs11Signer.destroyChild
  split
  case isFalse => exact ⟨h, contract.idle_of_holding hholding⟩
  case isTrue hne =>
      have hdestroy : wp (Program.run hsm.exec (Session.tryDestroyObject handle : TokenProgram K D ε _))
          (fun _ m => contract.idle m) (fun _ _ => False) s.machine :=
        Session.wp_tryDestroyObject hsm _ s.machine handle _ (contract.idle_tick hholding)
          (fun _ hobject => contract.idle_destroy hholding hne hobject)
      refine wp_mono (wp_onToken hdestroy h) (fun _ s' hs => ⟨hs.1, hs.2.2⟩) (fun _ s' hs => ?_)
      obtain ⟨_, _, _, hfalse⟩ := hs
      exact hfalse.elim

theorem wp_signSegwit (target : Target D) {publicKey : BitcoinPublicKey} {sighashType : EcdsaSighashType}
    (hkey : target.key = .ecdsa publicKey sighashType) {handle : ObjectHandle}
    (h : Wrote crates hsm contract.signed insert s₀ targets s)
    (hholding : contract.holding target.relativePath handle s.machine) :
    wp (signer.signSegwit crates hsm fail handle target.digest : SignM K T ε (Signature K))
      (fun sig s' => Wrote crates hsm contract.signed insert s₀ targets s' ∧
        contract.holding target.relativePath handle s'.machine ∧ contract.signed target sig)
      (fun e s' => Wrote crates hsm contract.signed insert s₀ targets s' ∧
        contract.holding target.relativePath handle s'.machine ∧ contract.refused target ∧
        (contract.calm → ∃ a, e = .err a)) s := by
  unfold Pkcs11Signer.signSegwit
  cases hsegwit : signer.backend.segwitSigner with
  | none =>
      exact ⟨h, hholding, contract.noSegwit hsegwit target publicKey sighashType hkey, fun _ => ⟨_, rfl⟩⟩
  | some segwit =>
      have hsign := contract.signEcdsa segwit hsegwit target publicKey sighashType hkey handle s.machine
        hholding
      refine wp_mono (wp_onToken hsign h) (fun sig s' hs => ⟨hs.1, hs.2.2⟩) (fun _ s' hs => ?_)
      obtain ⟨hwrote, e', rfl, hholding', hrefused, hcalm⟩ := hs
      exact ⟨hwrote, hholding', hrefused, fun h => Stop.exists_map_eq_err _ (hcalm h)⟩

theorem wp_signRequest (request : EcdsaRequest D) (inputIdx : Nat)
    (h : Wrote crates hsm contract.signed insert s₀ targets s) (hidle : contract.idle s.machine) :
    wp (signer.signRequest crates hsm fail request : SignM K T ε (Signature K))
      (fun sig s' => Wrote crates hsm contract.signed insert s₀ targets s' ∧ contract.idle s'.machine ∧
        ∃ raw, contract.signed (request.target inputIdx) raw ∧
          sig = { raw with bytes := crates.normalizeS raw.bytes })
      (fun e s' => Wrote crates hsm contract.signed insert s₀ targets s' ∧ contract.idle s'.machine ∧
        contract.refused (request.target inputIdx) ∧ (contract.calm → ∃ a, e = .err a)) s := by
  unfold Pkcs11Signer.signRequest
  rw [wp_bind]
  refine wp_mono (contract.wp_signingHandle fail request.relativePath h hidle)
    (fun handle s₁ h₁ => ?_) (fun _ s' h' => ⟨h'.1, h'.2.1, h'.2.2.1 _ rfl, h'.2.2.2⟩)
  obtain ⟨hwrote₁, _, hholding⟩ := h₁
  rw [wp_bind, wp_attempt]
  refine wp_mono (contract.wp_signSegwit fail (request.target inputIdx) rfl hwrote₁ hholding)
    (fun raw s₂ h₂ => ?_) (fun e s₂ h₂ => ?_)
  · rw [wp_bind]
    refine wp_mono (contract.wp_destroyChild h₂.1 h₂.2.1 _) (fun _ s' h' => ?_) (fun _ _ he => he)
    exact ⟨h'.1, h'.2, raw, h₂.2.2, rfl⟩
  · cases e with
    | panic message => exact ⟨h₂.1, contract.idle_of_holding h₂.2.1, h₂.2.2⟩
    | err e =>
        simp only [wp_bind]
        refine wp_mono (contract.wp_destroyChild h₂.1 h₂.2.1 _) (fun _ s' h' => ?_) (fun _ _ he => he)
        exact ⟨h'.1, h'.2, h₂.2.2.1, fun _ => ⟨e, rfl⟩⟩

/-- From a request to the signature in the input map. -/
theorem wp_answerRequest (request : EcdsaRequest D) (inputIdx : Nat)
    (h : Wrote crates hsm contract.signed insert s₀ targets s) (hidle : contract.idle s.machine) :
    wp (do
        let sig ← signer.signRequest crates hsm fail request
        putSignature hsm insert inputIdx (.partialSig request.publicKey ⟨sig, request.sighashType⟩)
        pure true : SignM K T ε Bool)
      (fun signed s' => signed = true ∧ contract.idle s'.machine ∧
        Wrote crates hsm contract.signed insert s₀ (targets ++ [request.target inputIdx]) s')
      (fun e s' => Wrote crates hsm contract.signed insert s₀ targets s' ∧ contract.idle s'.machine ∧
        contract.refused (request.target inputIdx) ∧ (contract.calm → ∃ a, e = .err a)) s := by
  rw [wp_bind]
  refine wp_mono (contract.wp_signRequest fail request inputIdx h hidle) (fun sig s₁ h₁ => ?_)
    (fun _ _ he => he)
  obtain ⟨hwrote, hidle₁, raw, hraw, rfl⟩ := h₁
  rw [wp_bind]
  exact wp_mono (wp_putSignature hwrote hraw hidle₁ _) (fun _ s' h' => ⟨rfl, h'.2, h'.1⟩)
    (fun _ _ he => he)

end SigningContract

end EmvaultPkcs11
