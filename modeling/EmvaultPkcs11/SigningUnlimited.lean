import EmvaultPkcs11.SignatureEntries
import EmvaultPkcs11.SigningProgram

/-! A signing call under a policy without a ceiling. Whether it succeeds is decided by what the policy, the
agenda and the vendor say of the unsigned transaction, and on success it has written exactly the vendor's
answers; apart from the transaction it leaves the signer's token and mutex as a later call needs them. -/

open Effect Agenda Writes

namespace EmvaultPkcs11

variable {K D X : Type}

/-- What a signer writes for targets when the vendor answers with `answer`. -/
def writesOf (crates : Crates D) (answer : Target D → Option (Signature K)) (targets : List (Target D)) :
    List (Nat × Insertion K) :=
  targets.filterMap fun target => (answer target).map fun sig => (target.inputIdx, target.insertion crates sig)

/-- Every item of the agenda is granted and answered. -/
def Answerable {ε : Type} (answer : Target D → Option (Signature K)) (agenda : List (Except ε (Target D))) :
    Prop :=
  Clean agenda ∧ ∀ target ∈ granted agenda, (answer target).isSome

section

variable {T ε : Type} {hsm : Hsm K D} {crates : Crates D} {serde : Serde} {insert : T → Nat → Insertion K → T}
  {s s' : SignState K T} {targets : List (Target D)} {answer : Target D → Option (Signature K)}

theorem writesOf_of_answers {ws : List (Written K)}
    (h : List.Forall₂ (Answers crates fun target sig => answer target = some sig) targets ws) :
    ws.map (fun w => (w.inputIdx, w.insertion)) = writesOf crates answer targets ∧
      ∀ target ∈ targets, (answer target).isSome := by
  induction h with
  | nil => exact ⟨rfl, by simp⟩
  | @cons target w targets ws hanswers _ ih =>
      obtain ⟨hidx, sig, hsig, hinsertion⟩ := hanswers
      refine ⟨?_, ?_⟩
      · rw [List.map_cons, ih.1]
        simp only [EmvaultPkcs11.writesOf, List.filterMap_cons, hsig, Option.map_some, hidx, hinsertion]
      · rw [List.forall_mem_cons, hsig]
        exact ⟨rfl, ih.2⟩

/-- What a call has written, where the vendor answers with `answer`. -/
theorem Wrote.writesOf {V : Type} (view : EntryView K T V insert)
    (h : Wrote crates hsm (fun target sig => answer target = some sig) insert s targets s') :
    (∀ target ∈ targets, (answer target).isSome) ∧
      s'.transaction = (writesOf crates answer targets).foldl view.put s.transaction := by
  obtain ⟨ws, hadvance, hanswers⟩ := h
  obtain ⟨hwrites, hanswered⟩ := writesOf_of_answers hanswers
  refine ⟨hanswered, ?_⟩
  rw [hadvance.transaction, ← hwrites, List.foldl_map]
  rfl

/-- A call on an answerable agenda fails only if the mutex is poisoned or no policy lets it in, where no
policy has a ceiling. -/
theorem Failure.not_able {ε' : Type} {agenda : List (Except ε' (Target D))} {poisoned : Bool}
    {admits : MinimalHsmPolicy → Prop} {done : List (Target D)} (hfree : hsm.FaultFree)
    (hceiling : ∀ policy, admits policy → policy.maxSignaturesPerHour = none)
    (h : Failure (fun target => hsm.FaultFree → answer target = none) agenda
      (poisoned = true ∨ (hsm.FaultFree → ∀ policy, ¬admits policy)) (∃ policy, admits policy)
      (∀ policy, admits policy → policy.maxSignaturesPerHour ≠ none) done) :
    ¬(poisoned = false ∧ (∃ policy, admits policy) ∧ Answerable answer agenda) := by
  rintro ⟨hlock, ⟨policy, hadmits⟩, hclean, hanswered⟩
  cases h with
  | turnedAway haway =>
      rcases haway with hpoisoned | haway
      · rw [hlock] at hpoisoned
        cases hpoisoned
      · exact haway hfree policy hadmits
  | stopped _ hstops =>
      rcases hstops with ⟨target, hpart, hrefused⟩ | ⟨_, hunclean⟩
      · have hmem : target ∈ granted agenda := hpart.subset (by simp)
        have hsome := hanswered target hmem
        rw [hrefused hfree] at hsome
        cases hsome
      · exact hunclean hclean
  | unrecorded _ _ h => exact h policy hadmits (hceiling policy hadmits)

theorem wp_recordIfSigned_of_none {signer : Pkcs11Signer K D} (fail : String → ε) {policy : MinimalHsmPolicy}
    (hnone : policy.maxSignaturesPerHour = none) (signedAny : Bool) (s : SignState K T) :
    wp (signer.recordIfSigned crates hsm serde fail policy signedAny : SignM K T ε Unit)
      (fun _ s' => s' = s) (fun _ _ => False) s := by
  unfold Pkcs11Signer.recordIfSigned checkAndRecordSigrate
  rw [hnone]
  split
  · rw [onToken, wp_mapErr, wp_onPart]
    exact rfl
  · exact rfl

end

section

variable {signer : Pkcs11Signer K D} (crates : Crates D) {hsm : Hsm K D} (serde : Serde)
  (elements : ElementsCrate K D X) {functions : VendorFunctions K D} {m₀ : Machine K} {federation : Object K}

/-- A signing call without a ceiling succeeds exactly when a policy lets it in and the vendor answers the whole
agenda, and then it has written the answers and kept what was on the token. -/
theorem wp_lockedCall_unlimited {T V ε ε' α β : Type} {insert : T → Nat → Insertion K → T}
    (view : EntryView K T V insert) (hfree : hsm.FaultFree) (hcomputes : signer.backend.Computes hsm functions)
    (hfederation : m₀.object? signer.loaded.privateKey = some federation) {s : SignState K T}
    {agenda : List (Except ε' (Target D))} {admits : MinimalHsmPolicy → Prop} {known : β → Prop}
    {inputs : SignM K T ε (MinimalHsmPolicy × β)}
    (hworks : (hcomputes.contract hfederation).WorksOff crates insert agenda admits known inputs s)
    (hleaves : Leaves SignState.poisoned inputs)
    (hunique : ∀ policy policy', admits policy → admits policy' → policy = policy')
    (hceiling : ∀ policy, admits policy → policy.maxSignaturesPerHour = none) (refusal : ε) (fail : String → ε)
    (any : β → Bool) (result : β → α) :
    let answer := functions.answer signer.backend signer.label federation
    let able := s.poisoned = false ∧ (∃ policy, admits policy) ∧ Answerable answer agenda
    wp (signer.lockedCall crates hsm serde refusal fail inputs any result)
      (fun _ s' => able ∧ (m₀.Keeps s'.machine ∧ s'.poisoned = false) ∧
        s'.transaction = (writesOf crates answer (granted agenda)).foldl view.put s.transaction)
      (fun _ _ => ¬able) s := by
  intro answer able
  have hkept : wp (signer.lockedCall crates hsm serde refusal fail inputs any result)
      (fun _ s' => (m₀.Keeps s'.machine ∧ s'.poisoned = false) ∧ s.poisoned = false) (fun _ _ => True) s := by
    refine wp_withLock _ _ _ _ s (fun _ => trivial) (fun hlock => ?_)
    rw [wp_bind]
    refine wp_mono (wp_and hworks (hleaves s)) (fun signed s₁ h₁ => ?_) (fun e _ _ => by cases e <;> trivial)
    obtain ⟨⟨hadmits, _, _, hidle, _⟩, hpoisoned⟩ := h₁
    rw [wp_bind]
    refine wp_mono (wp_recordIfSigned_of_none _ (hceiling _ hadmits) _ s₁) (fun _ s₂ h₂ => ?_)
      (fun _ _ h => h.elim)
    rw [h₂]
    exact ⟨⟨hidle, hpoisoned.trans hlock⟩, hlock⟩
  refine wp_mono (wp_and hkept (hworks.wp_lockedCall refusal fail any result hunique))
    (fun _ s' h' => ?_) (fun _ s' h' => ?_)
  · obtain ⟨⟨hdone, hlock⟩, hadmits, hclean, _, hwrote⟩ := h'
    obtain ⟨hanswered, htransaction⟩ := Wrote.writesOf view hwrote
    exact ⟨⟨hlock, hadmits, hclean, hanswered⟩, hdone, htransaction⟩
  · obtain ⟨_, done, hfailure, _⟩ := h'
    exact hfailure.not_able hfree hceiling

theorem wp_signTransaction_unlimited (hfree : hsm.FaultFree) (hcomputes : signer.backend.Computes hsm functions)
    (hfederation : m₀.object? signer.loaded.privateKey = some federation) (s : SignState K (Psbt K))
    (hkeeps : m₀.Keeps s.machine) (hceiling : ∀ policy, signer.storedPolicy hsm serde s.machine = .ok policy →
      policy.maxSignaturesPerHour = none) :
    let answer := functions.answer signer.backend signer.label federation
    let agenda := signer.agenda crates s.transaction
    let able := s.poisoned = false ∧ (∃ policy, signer.Admits crates hsm serde s policy) ∧
      Answerable answer agenda
    wp (signer.signTransaction crates hsm serde)
      (fun _ s' => able ∧ (m₀.Keeps s'.machine ∧ s'.poisoned = false) ∧
        s'.transaction = (writesOf crates answer (granted agenda)).foldl (psbtView K).put s.transaction)
      (fun _ _ => ¬able) s := by
  rw [signer.signTransaction_eq]
  apply wp_lockedCall_unlimited crates serde (psbtView K) hfree hcomputes hfederation
    ((hcomputes.contract hfederation).worksOff_signInputs crates serde s hkeeps) realizes_signInputs.leaves
  · exact fun policy policy' h h' => Except.ok.inj (h.1.symm.trans h'.1)
  · exact fun policy hadmits => hceiling policy hadmits.1

/-- No policy stands in between. -/
theorem wp_signPset_unlimited (hfree : hsm.FaultFree) (hcomputes : signer.backend.Computes hsm functions)
    (hfederation : m₀.object? signer.loaded.privateKey = some federation) (s : SignState K (Pset K))
    (hkeeps : m₀.Keeps s.machine) (hceiling : ∀ policy, signer.storedPolicy hsm serde s.machine = .ok policy →
      policy.maxSignaturesPerHour = none) :
    let answer := functions.answer signer.backend signer.label federation
    let agenda := signer.psetAgenda elements s.transaction
    let able := s.poisoned = false ∧ (∃ policy, signer.storedPolicy hsm serde s.machine = .ok policy) ∧
      Answerable answer agenda
    wp (signer.signPset crates elements hsm serde)
      (fun _ s' => able ∧ (m₀.Keeps s'.machine ∧ s'.poisoned = false) ∧
        s'.transaction =
          (writesOf crates answer (granted agenda)).foldl (psetView elements).put s.transaction)
      (fun _ _ => ¬able) s := by
  rw [signer.signPset_eq]
  apply wp_lockedCall_unlimited crates serde (psetView elements) hfree hcomputes hfederation
    ((hcomputes.contract hfederation).worksOff_signPsetInputs crates serde elements s hkeeps)
    realizes_signPsetInputs.leaves
  · exact fun policy policy' h h' => Except.ok.inj (h.symm.trans h')
  · exact hceiling

end

end EmvaultPkcs11
