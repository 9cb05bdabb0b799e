import EmvaultPkcs11.LibraryGuard
import EmvaultPkcs11.SigningCall

/-! Whole calls. Before the signature rate is recorded a call has either been turned away with nothing
written, or worked through its agenda up to where it stopped. Recording the rate touches the token
only, so the same holds when the call returns. -/

open Effect Agenda

namespace EmvaultPkcs11

variable {K D X : Type}

namespace Pkcs11Signer

variable (signer : Pkcs11Signer K D) (crates : Crates D) (hsm : Hsm K D) (serde : Serde)

/-- The policy the token holds for a signer. -/
def storedPolicy (m : Machine K) : Except (Stop Pkcs11Error) MinimalHsmPolicy :=
  hsm.stored (policyLabel signer.label) serde.policyFromSlice .permissive m

/-- The stored policy is `policy`, and it lets the PSBT through. -/
def Admits (s : SignState K (Psbt K)) (policy : MinimalHsmPolicy) : Prop :=
  signer.storedPolicy hsm serde s.machine = .ok policy ∧
    policy.checkAgainstPsbt crates s.transaction signer.network = .ok ()

end Pkcs11Signer

section

variable {T ε α : Type} {hsm : Hsm K D}

/-- The mutex refuses a call or lets it run; a panic leaves it poisoned. -/
theorem wp_withLock (refusal : ε) (body : SignM K T ε α) (Q : α → SignState K T → Prop)
    (E : Stop ε → SignState K T → Prop) (s : SignState K T)
    (hpoisoned : s.poisoned = true → E (.err refusal) s)
    (hbody : s.poisoned = false → wp body Q (fun e s' => match e with
      | .err e => E (.err e) s'
      | .panic message => E (.panic message) { s' with poisoned := true }) s) :
    wp (withLock refusal body) Q E s := by
  unfold withLock wp
  cases hlock : s.poisoned with
  | true =>
      simp only [EStateM.run, hlock, if_true]
      exact hpoisoned hlock
  | false =>
      have h := hbody hlock
      simp only [EStateM.run, hlock, Bool.false_eq_true, if_false]
      unfold wp at h
      cases hrun : body.run s with
      | ok a s' =>
          simp only [EStateM.run] at hrun
          simpa only [EStateM.run, hrun] using h
      | error e s' =>
          simp only [EStateM.run] at hrun
          cases e <;> simpa only [EStateM.run, hrun] using h

theorem after_withLock_poisoned (refusal : ε) (body : SignM K T ε α) {s : SignState K T}
    (h : s.poisoned = true) : after (withLock refusal body) s = s := by
  simp only [after, withLock, EStateM.run, h, if_true]

/-- What a program keeps of the token, a call that runs it keeps. -/
theorem maintains_onToken {ε' : Type} {Inv : Machine K → Prop} {wrap : ε' → ε} {p : TokenProgram K D ε' α}
    (h : Maintains Inv (Program.run hsm.exec p)) :
    Maintains (fun s => Inv s.machine) (onToken hsm wrap p : SignM K T ε α) := by
  intro s hs
  rw [onToken, wp_mapErr, wp_onPart]
  exact h s.machine hs

/-- The mutex is no part of the token. -/
theorem maintains_withLock {Inv : Machine K → Prop} {refusal : ε} {body : SignM K T ε α}
    (h : Maintains (fun s => Inv s.machine) body) : Maintains (fun s => Inv s.machine) (withLock refusal body) := by
  intro s hs
  refine wp_withLock _ _ _ _ s (fun _ => hs) fun _ => ?_
  refine wp_mono (h s hs) (fun _ _ h' => h') fun e _ h' => ?_
  cases e <;> exact h'

variable {signer : Pkcs11Signer K D} {crates : Crates D} {serde : Serde}
  {signed : Target D → Signature K → Prop} {insert : T → Nat → Insertion K → T} {s₀ s : SignState K T}
  {targets : List (Target D)}

/-- Loading the policy leaves the call where it was. -/
theorem wp_loadPolicy {signer : Pkcs11Signer K D} (contract : SigningContract hsm signer)
    (crates : Crates D) (insert : T → Nat → Insertion K → T) (fail : Pkcs11Error → ε) (s : SignState K T)
    (hidle : contract.idle s.machine) :
    wp (onToken hsm fail (loadPolicy serde signer.label) : SignM K T ε MinimalHsmPolicy)
      (fun policy s' => signer.storedPolicy hsm serde s.machine = .ok policy ∧
        Wrote crates hsm contract.signed insert s [] s' ∧ contract.idle s'.machine ∧
        s'.transaction = s.transaction)
      (fun _ s' => (hsm.FaultFree → ∀ policy, signer.storedPolicy hsm serde s.machine ≠ .ok policy) ∧
        Wrote crates hsm contract.signed insert s [] s' ∧ contract.idle s'.machine) s := by
  have hload := wp_loadRecord hsm (policyLabel signer.label) MinimalHsmPolicy.permissive
    serde.policyFromSlice s.machine
  have hstart : Wrote crates hsm contract.signed insert s [] s := .refl s
  refine wp_mono (wp_onToken hload hstart) (fun policy s' h' => ?_) (fun _ s' h' => ?_)
  · obtain ⟨hwrote, htx, hstored, hticked⟩ := h'
    exact ⟨hstored, hwrote, contract.idle_of_ticked hidle hticked, htx⟩
  · obtain ⟨hwrote, e, _, hstored, hticked⟩ := h'
    refine ⟨fun hfree policy hpolicy => ?_, hwrote, contract.idle_of_ticked hidle hticked⟩
    rw [Pkcs11Signer.storedPolicy, hstored hfree] at hpolicy
    cases hpolicy

/-- Recording the signature rate writes nothing, and fails only under a ceiling. -/
theorem wp_recordIfSigned (fail : String → ε) (policy : MinimalHsmPolicy) (signedAny : Bool)
    (h : Wrote crates hsm signed insert s₀ targets s) :
    wp (signer.recordIfSigned crates hsm serde fail policy signedAny : SignM K T ε Unit)
      (fun _ s' => Wrote crates hsm signed insert s₀ targets s')
      (fun _ s' => Wrote crates hsm signed insert s₀ targets s' ∧ policy.maxSignaturesPerHour ≠ none)
      s := by
  unfold Pkcs11Signer.recordIfSigned checkAndRecordSigrate
  split
  · cases policy.maxSignaturesPerHour with
    | none =>
        have hpure : wp (Program.run hsm.exec (pure () : TokenProgram K D Pkcs11Error Unit))
            (fun _ m => s.machine.calls ≤ m.calls) (fun _ _ => False) s.machine := Nat.le_refl _
        refine wp_mono (wp_onToken hpure h) (fun _ _ h' => h'.1) (fun _ _ h' => ?_)
        obtain ⟨_, _, _, hfalse⟩ := h'
        exact hfalse.elim
    | some max =>
        exact wp_mono (wp_onToken (hsm.wp_calls_le _ s.machine) h) (fun _ _ h' => h'.1)
          (fun _ _ h' => ⟨h'.1, by simp⟩)
  · exact h

/-- What a call has written does not depend on the mutex. -/
theorem Wrote.withPoisoned (h : Wrote crates hsm signed insert s₀ targets s) (flag : Bool) :
    Wrote crates hsm signed insert s₀ targets { s with poisoned := flag } := by
  obtain ⟨ws, hadvance, hanswers⟩ := h
  exact ⟨ws, ⟨hadvance.written, hadvance.transaction, hadvance.calls, hadvance.times⟩, hanswers⟩

/-- Where a call that returns an error has ended, after the targets `done`: it was turned away, it
stopped inside its agenda, or it failed to record the signature rate. -/
inductive Failure {ε τ : Type} (refused : τ → Prop) (agenda : List (Except ε τ))
    (turnedAway admitted ceiling : Prop) : List τ → Prop where
  | turnedAway (h : turnedAway) : Failure refused agenda turnedAway admitted ceiling []
  | stopped {done : List τ} (hadmitted : admitted) (h : StopsAt refused agenda done) :
      Failure refused agenda turnedAway admitted ceiling done
  | unrecorded (hadmitted : admitted) (hclean : Clean agenda) (hceiling : ceiling) :
      Failure refused agenda turnedAway admitted ceiling (granted agenda)

section

variable {ε τ : Type} {refused : τ → Prop} {agenda : List (Except ε τ)}
  {turnedAway admitted ceiling : Prop} {done : List τ}

theorem Failure.prefix_granted (h : Failure refused agenda turnedAway admitted ceiling done) :
    done <+: granted agenda := by
  cases h with
  | turnedAway _ => exact List.nil_prefix
  | stopped _ h => exact h.prefix_granted
  | unrecorded _ _ _ => exact List.prefix_rfl

theorem Failure.was_admitted (h : Failure refused agenda turnedAway admitted ceiling done)
    (hne : done ≠ []) : admitted := by
  cases h with
  | turnedAway _ => exact absurd rfl hne
  | stopped h _ => exact h
  | unrecorded h _ _ => exact h

end

/-- A failure of a call says the same of the state a panic leaves the mutex in. -/
theorem Wrote.exists_withPoisoned {P : List (Target D) → Prop} (e : Stop ε)
    (h : ∃ done, P done ∧ Wrote crates hsm signed insert s₀ done s) :
    match e with
    | .err _ => ∃ done, P done ∧ Wrote crates hsm signed insert s₀ done s
    | .panic _ => ∃ done, P done ∧ Wrote crates hsm signed insert s₀ done { s with poisoned := true } := by
  obtain ⟨done, hdone, hwrote⟩ := h
  cases e with
  | err e => exact ⟨done, hdone, hwrote⟩
  | panic message => exact ⟨done, hdone, hwrote.withPoisoned true⟩

end

/-! ### The two calls -/

/-- Both signing calls: under the lock, the inputs are signed, and then the signature rate is recorded. -/
def Pkcs11Signer.lockedCall {T ε α β : Type} (signer : Pkcs11Signer K D) (crates : Crates D) (hsm : Hsm K D)
    (serde : Serde) (refusal : ε) (fail : String → ε) (inputs : SignM K T ε (MinimalHsmPolicy × β)) (any : β → Bool)
    (result : β → α) : SignM K T ε α :=
  withLock refusal do
    let signed ← inputs
    signer.recordIfSigned crates hsm serde fail signed.1 (any signed.2)
    pure (result signed.2)

theorem Pkcs11Signer.signTransaction_eq (signer : Pkcs11Signer K D) (crates : Crates D) (hsm : Hsm K D)
    (serde : Serde) :
    signer.signTransaction crates hsm serde = signer.lockedCall crates hsm serde
      (.external "Pkcs11Signer mutex poisoned") .external (signer.signInputs crates hsm serde)
      (fun signedAny => signedAny) fun _ => () := by
  simp only [signTransaction, lockedCall, bind_pure_unit]

theorem Pkcs11Signer.signPset_eq (signer : Pkcs11Signer K D) (crates : Crates D) (elements : ElementsCrate K D X)
    (hsm : Hsm K D) (serde : Serde) :
    signer.signPset crates elements hsm serde = signer.lockedCall crates hsm serde
      (.signerBackend "Pkcs11Signer mutex poisoned") .signerBackend
      (signer.signPsetInputs crates elements hsm serde) (fun count => 0 < count) fun count => count := rfl

namespace SigningContract

section

variable {T ε ε' α β : Type} {hsm : Hsm K D} {signer : Pkcs11Signer K D} (contract : SigningContract hsm signer)
  (crates : Crates D) (insert : T → Nat → Insertion K → T)

/-- The first part of a call is turned away with nothing written, stops inside its agenda, or works through
it, with a result of which `known` holds. A call is let in by the policies that `admits` holds of. -/
def WorksOff (agenda : List (Except ε' (Target D))) (admits : MinimalHsmPolicy → Prop) (known : β → Prop)
    (inputs : SignM K T ε (MinimalHsmPolicy × β)) (s : SignState K T) : Prop :=
  wp inputs
    (fun signed s' => admits signed.1 ∧ Clean agenda ∧
      Wrote crates hsm contract.signed insert s (granted agenda) s' ∧ contract.idle s'.machine ∧ known signed.2)
    (fun e s' =>
      ((hsm.FaultFree → ∀ policy, ¬admits policy) ∧ Wrote crates hsm contract.signed insert s [] s' ∧
        contract.idle s'.machine) ∨
      ((∃ policy, admits policy) ∧ contract.AfterStop crates insert s [] agenda e s')) s

variable {contract crates insert} {serde : Serde} {agenda : List (Except ε' (Target D))}
  {admits : MinimalHsmPolicy → Prop} {known : β → Prop} {inputs : SignM K T ε (MinimalHsmPolicy × β)}
  {s : SignState K T} (refusal : ε) (fail : String → ε) (any : β → Bool) (result : β → α)

/-- A call, however it ends: the signatures written are those of a first part of the agenda, all of it on
`Ok`. -/
theorem WorksOff.wp_lockedCall (h : contract.WorksOff crates insert agenda admits known inputs s)
    (hunique : ∀ policy policy', admits policy → admits policy' → policy = policy') :
    wp (signer.lockedCall crates hsm serde refusal fail inputs any result)
      (fun a s' => (∃ policy, admits policy) ∧ Clean agenda ∧ (∃ b, known b ∧ a = result b) ∧
        Wrote crates hsm contract.signed insert s (granted agenda) s')
      (fun _ s' => ∃ done, Failure contract.refused agenda
          (s.poisoned = true ∨ (hsm.FaultFree → ∀ policy, ¬admits policy)) (∃ policy, admits policy)
          (∀ policy, admits policy → policy.maxSignaturesPerHour ≠ none) done ∧
        Wrote crates hsm contract.signed insert s done s') s := by
  refine wp_withLock _ _ _ _ s (fun hlock => ⟨[], .turnedAway (Or.inl hlock), .refl s⟩) (fun _ => ?_)
  rw [wp_bind]
  refine wp_mono h (fun signed s₁ h₁ => ?_) (fun e s' h' => Wrote.exists_withPoisoned e ?_)
  · obtain ⟨hadmits, hclean, hwrote, _, hknown⟩ := h₁
    rw [wp_bind]
    refine wp_mono (wp_recordIfSigned _ signed.1 _ hwrote)
      (fun _ s' h' => ⟨⟨_, hadmits⟩, hclean, ⟨_, hknown, rfl⟩, h'⟩) (fun e s' h' => Wrote.exists_withPoisoned e ?_)
    refine ⟨_, .unrecorded ⟨_, hadmits⟩ hclean fun policy hpolicy => ?_, h'.1⟩
    rw [hunique policy signed.1 hpolicy hadmits]
    exact h'.2
  · rcases h' with ⟨haway, hwrote, _⟩ | ⟨hadmits, more, hstops, hwrote, _⟩
    · exact ⟨[], .turnedAway (Or.inr haway), hwrote⟩
    · exact ⟨more, .stopped hadmits hstops, hwrote⟩

/-- What holds of the token between signatures, and is kept where the signature rate is recorded, holds when
the call ends. -/
theorem WorksOff.wp_lockedCall_keeps (h : contract.WorksOff crates insert agenda admits known inputs s)
    (hs : contract.idle s.machine) {Inv : Machine K → Prop} (hidle : ∀ m, contract.idle m → Inv m)
    (hrecord : ∀ policy, Maintains Inv (Program.run hsm.exec (checkAndRecordSigrate serde signer.label policy))) :
    wp (signer.lockedCall crates hsm serde refusal fail inputs any result) (fun _ s' => Inv s'.machine)
      (fun _ s' => Inv s'.machine) s := by
  have hrate (policy : MinimalHsmPolicy) (signedAny : Bool) : Maintains (fun s => Inv s.machine)
      (signer.recordIfSigned crates hsm serde fail policy signedAny : SignM K T ε Unit) := by
    unfold Pkcs11Signer.recordIfSigned
    split
    · exact maintains_onToken (hrecord policy)
    · exact Maintains.pure ()
  refine wp_withLock _ _ _ _ s (fun _ => hidle _ hs) (fun _ => ?_)
  rw [wp_bind]
  refine wp_mono h (fun signed s₁ h₁ => ?_) (fun e s₁ h₁ => ?_)
  · obtain ⟨_, _, _, hidle₁, _⟩ := h₁
    refine wp_mono ((hrate signed.1 (any signed.2)).bind (fun _ => Maintains.pure _) s₁ (hidle _ hidle₁))
      (fun _ _ h' => h') (fun e _ h' => ?_)
    cases e <;> exact h'
  · have hidle₁ : contract.idle s₁.machine := by
      obtain ⟨_, _, hidle₁⟩ | ⟨_, _, _, _, hidle₁, _⟩ := h₁ <;> exact hidle₁
    cases e <;> exact hidle _ hidle₁

end

variable {hsm : Hsm K D} {signer : Pkcs11Signer K D} (contract : SigningContract hsm signer)
  (crates : Crates D) (serde : Serde)

/-- `sign_transaction` up to where the signature rate is recorded. -/
theorem worksOff_signInputs (s : SignState K (Psbt K)) (hidle : contract.idle s.machine) :
    contract.WorksOff crates Psbt.insert (signer.agenda crates s.transaction)
      (signer.Admits crates hsm serde s)
      (fun signedAny => signedAny = true ↔ granted (signer.agenda crates s.transaction) ≠ [])
      (signer.signInputs crates hsm serde) s := by
  unfold WorksOff Pkcs11Signer.signInputs
  rw [wp_bind]
  refine wp_mono (wp_loadPolicy contract crates Psbt.insert _ s hidle) (fun policy s₁ h₁ => ?_)
    (fun _ s' h' => Or.inl ?_)
  case refine_2 => exact ⟨fun hfree policy hadmits => h'.1 hfree policy hadmits.1, h'.2⟩
  obtain ⟨hstored, hwrote, hidle₁, htx⟩ := h₁
  simp only [wp_bind, wp_get, wp_ofResult, htx]
  refine ⟨fun _ hcheck => ?_, fun e he => Or.inl ⟨fun _ policy' hadmits => ?_, hwrote, hidle₁⟩⟩
  · have hadmits : signer.Admits crates hsm serde s policy := by
      refine ⟨hstored, ?_⟩
      cases h : policy.checkAgainstPsbt crates s.transaction signer.network with
      | ok _ => rfl
      | error e => rw [h] at hcheck; cases hcheck
    rw [← htx]
    refine wp_mono (contract.wp_inputLoop hwrote hidle₁) (fun signedAny s' h' => ⟨hadmits, h'⟩)
      (fun _ s' h' => Or.inr ⟨⟨policy, hadmits⟩, h'⟩)
  · have hsame : policy' = policy := Except.ok.inj (hadmits.1.symm.trans hstored)
    rw [← hsame, hadmits.2] at he
    cases he

/-- `sign_transaction`, however it ends: the signatures written are those of a first part of the
agenda, all of it on `Ok`, and none are written unless the stored policy admits the PSBT. -/
theorem wp_signTransaction (s : SignState K (Psbt K)) (hidle : contract.idle s.machine) :
    wp (signer.signTransaction crates hsm serde)
      (fun _ s' => (∃ policy, signer.Admits crates hsm serde s policy) ∧
        Clean (signer.agenda crates s.transaction) ∧
        Wrote crates hsm contract.signed Psbt.insert s (granted (signer.agenda crates s.transaction)) s')
      (fun _ s' => ∃ done, Failure contract.refused (signer.agenda crates s.transaction)
          (s.poisoned = true ∨ (hsm.FaultFree → ∀ policy, ¬signer.Admits crates hsm serde s policy))
          (∃ policy, signer.Admits crates hsm serde s policy)
          (∀ policy, signer.Admits crates hsm serde s policy → policy.maxSignaturesPerHour ≠ none)
          done ∧
        Wrote crates hsm contract.signed Psbt.insert s done s') s := by
  rw [signer.signTransaction_eq]
  refine wp_mono ((contract.worksOff_signInputs crates serde s hidle).wp_lockedCall _ _ _ _
    fun policy policy' h h' => Except.ok.inj (h.1.symm.trans h'.1)) (fun _ s' h' => ?_) (fun _ _ h' => h')
  exact ⟨h'.1, h'.2.1, h'.2.2.2⟩

variable (elements : ElementsCrate K D X)

/-- `sign_pset` up to where the signature rate is recorded. -/
theorem worksOff_signPsetInputs (s : SignState K (Pset K)) (hidle : contract.idle s.machine) :
    contract.WorksOff crates (Pset.insert elements) (signer.psetAgenda elements s.transaction)
      (fun policy => signer.storedPolicy hsm serde s.machine = .ok policy)
      (fun count => count = (granted (signer.psetAgenda elements s.transaction)).length)
      (signer.signPsetInputs crates elements hsm serde) s := by
  unfold WorksOff Pkcs11Signer.signPsetInputs Pkcs11Signer.psetAgenda
  rw [wp_bind]
  refine wp_mono (wp_loadPolicy contract crates (Pset.insert elements) _ s hidle)
    (fun policy s₁ h₁ => ?_) (fun _ s' h' => Or.inl h')
  obtain ⟨hstored, hwrote, hidle₁, htx⟩ := h₁
  simp only [wp_bind, wp_get, wp_orErr, htx]
  cases hextract : elements.extractTx s.transaction with
  | error e =>
      refine ⟨fun tx htx => ?_, fun _ _ => Or.inr ⟨⟨policy, hstored⟩, ?_⟩⟩
      · cases htx
      · exact contract.afterStop_of_stopsAt_nil (stopsAt_error _ _) hwrote hidle₁ fun _ => ⟨_, rfl⟩
  | ok unsignedTx =>
      refine ⟨fun tx htx' => ?_, fun e he => ?_⟩
      · obtain rfl := Except.ok.inj htx'
        rw [← htx]
        exact wp_mono (contract.wp_psetInputLoop unsignedTx hwrote hidle₁)
          (fun signed s' h' => ⟨hstored, h'⟩) (fun _ s' h' => Or.inr ⟨⟨policy, hstored⟩, h'⟩)
      · cases he

/-- `sign_pset`, however it ends: the signatures written are those of a first part of the agenda, all
of it on `Ok`. No policy stands in between. -/
theorem wp_signPset (s : SignState K (Pset K)) (hidle : contract.idle s.machine) :
    wp (signer.signPset crates elements hsm serde)
      (fun count s' => Clean (signer.psetAgenda elements s.transaction) ∧
        count = (granted (signer.psetAgenda elements s.transaction)).length ∧
        Wrote crates hsm contract.signed (Pset.insert elements) s
          (granted (signer.psetAgenda elements s.transaction)) s')
      (fun _ s' => ∃ done, Failure contract.refused (signer.psetAgenda elements s.transaction)
          (s.poisoned = true ∨
            (hsm.FaultFree → ∀ policy, signer.storedPolicy hsm serde s.machine ≠ .ok policy))
          (∃ policy, signer.storedPolicy hsm serde s.machine = .ok policy)
          (∀ policy, signer.storedPolicy hsm serde s.machine = .ok policy →
            policy.maxSignaturesPerHour ≠ none)
          done ∧
        Wrote crates hsm contract.signed (Pset.insert elements) s done s') s := by
  rw [signer.signPset_eq]
  refine wp_mono ((contract.worksOff_signPsetInputs crates serde elements s hidle).wp_lockedCall _ _ _ _
    fun policy policy' h h' => Except.ok.inj (h.symm.trans h')) (fun _ s' h' => ?_) (fun _ _ h' => h')
  obtain ⟨_, hclean, ⟨_, rfl, rfl⟩, hwrote⟩ := h'
  exact ⟨hclean, rfl, hwrote⟩

variable {Inv : Machine K → Prop}

theorem wp_signTransaction_keeps (s : SignState K (Psbt K)) (hs : contract.idle s.machine)
    (hidle : ∀ m, contract.idle m → Inv m)
    (hrecord : ∀ policy, Maintains Inv (Program.run hsm.exec (checkAndRecordSigrate serde signer.label policy))) :
    wp (signer.signTransaction crates hsm serde) (fun _ s' => Inv s'.machine) (fun _ s' => Inv s'.machine) s := by
  rw [signer.signTransaction_eq]
  exact (contract.worksOff_signInputs crates serde s hs).wp_lockedCall_keeps _ _ _ _ hs hidle hrecord

theorem wp_signPset_keeps (s : SignState K (Pset K)) (hs : contract.idle s.machine)
    (hidle : ∀ m, contract.idle m → Inv m)
    (hrecord : ∀ policy, Maintains Inv (Program.run hsm.exec (checkAndRecordSigrate serde signer.label policy))) :
    wp (signer.signPset crates elements hsm serde) (fun _ s' => Inv s'.machine) (fun _ s' => Inv s'.machine) s := by
  rw [signer.signPset_eq]
  exact (contract.worksOff_signPsetInputs crates serde elements s hs).wp_lockedCall_keeps _ _ _ _ hs hidle hrecord

end SigningContract

/-! ### The signatures of a call -/

section

variable {T ε α : Type} {hsm : Hsm K D} {crates : Crates D} {signed : Target D → Signature K → Prop}
  {insert : T → Nat → Insertion K → T} {s : SignState K T} {targets : List (Target D)}

/-- The signatures a call puts into its transaction, however it ends. -/
def writtenBy (call : SignM K T ε α) (s : SignState K T) : List (Written K) :=
  (after call s).written.drop s.written.length

theorem Wrote.forall₂_writtenBy {call : SignM K T ε α}
    (h : Wrote crates hsm signed insert s targets (after call s)) :
    List.Forall₂ (Answers crates signed) targets (writtenBy call s) := by
  obtain ⟨ws, hadvance, hanswers⟩ := h
  rwa [writtenBy, hadvance.written, List.drop_left]

/-- From `s` to `s'` a call has worked through a first part of an agenda. -/
def WrotePart {ε' : Type} (crates : Crates D) (hsm : Hsm K D) (signed : Target D → Signature K → Prop)
    (insert : T → Nat → Insertion K → T) (s : SignState K T) (agenda : List (Except ε' (Target D)))
    (s' : SignState K T) : Prop :=
  ∃ done, done <+: granted agenda ∧ Wrote crates hsm signed insert s done s'

theorem Wrote.writtenBy_ne_nil_iff {call : SignM K T ε α}
    (h : Wrote crates hsm signed insert s targets (after call s)) :
    writtenBy call s ≠ [] ↔ targets ≠ [] := by
  have hlength := h.forall₂_writtenBy.length_eq
  rw [← List.length_pos_iff, ← List.length_pos_iff, hlength]

/-- Every signature a call has written is one its agenda asked for. -/
theorem WrotePart.exists_target {ε' : Type} {agenda : List (Except ε' (Target D))}
    {call : SignM K T ε α} (h : WrotePart crates hsm signed insert s agenda (after call s))
    {w : Written K} (hw : w ∈ writtenBy call s) :
    ∃ target, .ok target ∈ agenda ∧ Answers crates signed target w := by
  obtain ⟨done, hdone, hwrote⟩ := h
  have hanswers := hwrote.forall₂_writtenBy
  have hexists : ∃ target ∈ done, Answers crates signed target w := by
    clear hwrote hdone
    generalize writtenBy call s = ws at hw hanswers
    induction hanswers with
    | nil => cases hw
    | cons hanswer _ ih =>
        rcases List.mem_cons.mp hw with rfl | hw
        · exact ⟨_, List.mem_cons_self, hanswer⟩
        · obtain ⟨target, htarget, hanswer⟩ := ih hw
          exact ⟨target, List.mem_cons_of_mem _ htarget, hanswer⟩
  obtain ⟨target, htarget, hanswer⟩ := hexists
  exact ⟨target, mem_of_mem_granted (hdone.subset htarget), hanswer⟩

end

section

variable {hsm : Hsm K D} {signer : Pkcs11Signer K D} (contract : SigningContract hsm signer)
  (crates : Crates D) (serde : Serde)

theorem SigningContract.signTransaction_wrotePart (s : SignState K (Psbt K))
    (hidle : contract.idle s.machine) :
    WrotePart crates hsm contract.signed Psbt.insert s (signer.agenda crates s.transaction)
      (after (signer.signTransaction crates hsm serde) s) := by
  refine after_of_wp (contract.wp_signTransaction crates serde s hidle)
    (fun _ _ h => ⟨_, List.prefix_rfl, h.2.2⟩) (fun _ _ h => ?_)
  obtain ⟨done, hfailure, hwrote⟩ := h
  exact ⟨done, hfailure.prefix_granted, hwrote⟩

theorem SigningContract.signPset_wrotePart (elements : ElementsCrate K D X) (s : SignState K (Pset K))
    (hidle : contract.idle s.machine) :
    WrotePart crates hsm contract.signed (Pset.insert elements) s
      (signer.psetAgenda elements s.transaction)
      (after (signer.signPset crates elements hsm serde) s) := by
  refine after_of_wp (contract.wp_signPset crates serde elements s hidle)
    (fun _ _ h => ⟨_, List.prefix_rfl, h.2.2⟩) (fun _ _ h => ?_)
  obtain ⟨done, hfailure, hwrote⟩ := h
  exact ⟨done, hfailure.prefix_granted, hwrote⟩

end

end EmvaultPkcs11
