import EmvaultPkcs11.IdealVendor
import EmvaultPkcs11.PolicyRules
import EmvaultPkcs11.SigningOutcome

/-! Whether the stored policy stands between a transaction and a signature. `sign_transaction` loads the
policy and checks the PSBT before the first input, whatever the token does. `sign_pset` loads the same
policy but reads its signature ceiling only, so its limit and whitelist bind a PSET only where no
signature would have been made anyway. -/

open Effect Agenda

namespace EmvaultPkcs11

variable {K D X : Type}

/-- A PSET whose output amounts are explicit obeys a policy: the fee output, which has no script, counts
towards the limit and not towards the whitelist. -/
def Pset.Obeys (pset : Pset K) (policy : MinimalHsmPolicy) : Prop :=
  policy.Obeyed (pset.outputs.filterMap PsetOutput.amount)
    ((pset.outputs.map PsetOutput.scriptPubkey).filter fun script => !script.isEmpty)

/-- A call that is not turned away and whose first target is answered has written something. -/
theorem Failure.ne_nil {ε τ : Type} {refused : τ → Prop} {agenda : List (Except ε τ)}
    {turnedAway admitted ceiling : Prop} {done : List τ}
    (h : Failure refused agenda turnedAway admitted ceiling done) (haway : ¬turnedAway) {first : τ}
    (hfirst : (granted agenda).head? = some first) (hanswered : ¬refused first) : done ≠ [] := by
  rintro rfl
  generalize hdone : ([] : List τ) = done at h
  cases h with
  | turnedAway h => exact haway h
  | stopped _ h =>
      subst hdone
      rcases h with ⟨t, hstart, hrefused⟩ | ⟨hgranted, _⟩
      · obtain ⟨rest, hrest⟩ := hstart
        rw [← hrest, List.nil_append, List.singleton_append, List.head?_cons] at hfirst
        exact hanswered (Option.some.inj hfirst ▸ hrefused)
      · rw [← hgranted] at hfirst
        cases hfirst
  | unrecorded _ _ _ =>
      rw [← hdone] at hfirst
      cases hfirst

section

variable {hsm : Hsm K D} {signer : Pkcs11Signer K D} {crates : Crates D}
  {elements : ElementsCrate K D X} {serde : Serde} {policy : MinimalHsmPolicy}

/-- Nothing is written for a PSBT the stored policy does not admit. -/
theorem admits_of_written (s : SignState K (Psbt K))
    (hwritten : writtenBy (signer.signTransaction crates hsm serde) s ≠ []) :
    ∃ policy, signer.Admits crates hsm serde s policy := by
  have hrun : ∃ done, (done ≠ [] → ∃ policy, signer.Admits crates hsm serde s policy) ∧
      Wrote crates hsm (SigningContract.trivial hsm signer).signed Psbt.insert s done
        (after (signer.signTransaction crates hsm serde) s) := by
    refine after_of_wp (P := fun s' => ∃ done,
        (done ≠ [] → ∃ policy, signer.Admits crates hsm serde s policy) ∧
        Wrote crates hsm (SigningContract.trivial hsm signer).signed Psbt.insert s done s')
      ((SigningContract.trivial hsm signer).wp_signTransaction crates serde s True.intro)
      (fun _ _ h => ⟨_, fun _ => h.1, h.2.2⟩) (fun _ _ h => ?_)
    obtain ⟨done, hfailure, hwrote⟩ := h
    exact ⟨done, hfailure.was_admitted, hwrote⟩
  obtain ⟨done, hadmits, hwrote⟩ := hrun
  exact hadmits (hwrote.writtenBy_ne_nil_iff.mp hwritten)

/-- A call that is asked for nothing, or is refused by its mutex, writes nothing into a PSET. -/
theorem psetAgenda_of_written (s : SignState K (Pset K))
    (hwritten : writtenBy (signer.signPset crates elements hsm serde) s ≠ []) :
    s.poisoned = false ∧ granted (signer.psetAgenda elements s.transaction) ≠ [] := by
  constructor
  · by_contra hpoisoned
    apply hwritten
    rw [writtenBy, Pkcs11Signer.signPset, after_withLock_poisoned _ _ (by simpa using hpoisoned),
      List.drop_length]
  · intro hnone
    obtain ⟨done, hstart, hwrote⟩ :=
      (SigningContract.trivial hsm signer).signPset_wrotePart crates serde elements s True.intro
    rw [hnone, List.prefix_nil] at hstart
    exact hwrote.writtenBy_ne_nil_iff.mp hwritten hstart

/-- On a token that serves every call, a PSET whose first target the vendor answers is signed. -/
theorem signPset_writes (contract : SigningContract hsm signer) (hfree : hsm.FaultFree)
    (s : SignState K (Pset K)) (hidle : contract.idle s.machine) (hpoisoned : s.poisoned = false)
    (hstored : signer.storedPolicy hsm serde s.machine = .ok policy) {first : Target D}
    (hfirst : (granted (signer.psetAgenda elements s.transaction)).head? = some first)
    (hanswered : ¬contract.refused first) :
    writtenBy (signer.signPset crates elements hsm serde) s ≠ [] := by
  have hrun : ∃ done, done ≠ [] ∧
      Wrote crates hsm contract.signed (Pset.insert elements) s done
        (after (signer.signPset crates elements hsm serde) s) := by
    refine after_of_wp (P := fun s' => ∃ done, done ≠ [] ∧
        Wrote crates hsm contract.signed (Pset.insert elements) s done s')
      (contract.wp_signPset crates serde elements s hidle)
      (fun _ _ h => ⟨_, fun hnil => ?_, h.2.2⟩) (fun _ _ h => ?_)
    · rw [hnil] at hfirst
      cases hfirst
    · obtain ⟨done, hfailure, hwrote⟩ := h
      refine ⟨done, hfailure.ne_nil (fun haway => ?_) hfirst hanswered, hwrote⟩
      rcases haway with hlock | hload
      · rw [hpoisoned] at hlock
        cases hlock
      · exact hload hfree policy hstored
  obtain ⟨done, hne, hwrote⟩ := hrun
  exact hwrote.writtenBy_ne_nil_iff.mpr hne

/-- A call that has written something has had its first target answered. -/
theorem WrotePart.exists_first {T ε ε' α : Type} {signed : Target D → Signature K → Prop}
    {insert : T → Nat → Insertion K → T} {s : SignState K T} {agenda : List (Except ε' (Target D))}
    {call : SignM K T ε α} (h : WrotePart crates hsm signed insert s agenda (after call s))
    (hwritten : writtenBy call s ≠ []) :
    ∃ first sig, (granted agenda).head? = some first ∧ signed first sig := by
  obtain ⟨done, ⟨rest, hrest⟩, hwrote⟩ := h
  have hne := hwrote.writtenBy_ne_nil_iff.mp hwritten
  have hanswers := hwrote.forall₂_writtenBy
  generalize writtenBy call s = ws at hanswers
  cases hanswers with
  | nil => exact absurd rfl hne
  | cons hanswer _ =>
      obtain ⟨_, sig, hsig, _⟩ := hanswer
      exact ⟨_, sig, by rw [← hrest]; rfl, hsig⟩

variable (hsm signer crates elements serde policy)

/-- What the stored policy gates. A PSBT that gets a signature obeys the policy, on every token. A PSET
that gets one need not: on every token it does if it obeys the policy anyway, or asks for nothing, or
the mutex is poisoned; and on a token that serves every call the only other case is that the vendor
does not answer the first target. -/
theorem policy_gates_iff :
    (∀ s : SignState K (Psbt K), signer.storedPolicy hsm serde s.machine = .ok policy →
      writtenBy (signer.signTransaction crates hsm serde) s ≠ [] → s.transaction.Obeys policy) ∧
    ∀ s : SignState K (Pset K), signer.storedPolicy hsm serde s.machine = .ok policy →
      (s.poisoned = true ∨ granted (signer.psetAgenda elements s.transaction) = [] ∨
          s.transaction.Obeys policy →
        writtenBy (signer.signPset crates elements hsm serde) s ≠ [] → s.transaction.Obeys policy) ∧
      ∀ functions federation, hsm.FaultFree → signer.backend.Computes hsm functions →
        s.machine.object? signer.loaded.privateKey = some federation →
        ((writtenBy (signer.signPset crates elements hsm serde) s ≠ [] → s.transaction.Obeys policy) ↔
          s.poisoned = true ∨
          (∀ first, (granted (signer.psetAgenda elements s.transaction)).head? = some first →
            functions.answer signer.backend signer.label federation first = none) ∨
          s.transaction.Obeys policy) := by
  refine ⟨fun s hstored hwritten => ?_, fun s hstored => ⟨fun hcases hwritten => ?_, ?_⟩⟩
  · obtain ⟨policy', hadmits, hcheck⟩ := admits_of_written s hwritten
    rw [Except.ok.inj (hstored.symm.trans hadmits)]
    exact ((checkAgainstPsbt_eq_ok_iff crates policy' s.transaction signer.network).mp hcheck).2
  · obtain ⟨hpoisoned, hgranted⟩ := psetAgenda_of_written s hwritten
    rcases hcases with hlock | hnone | hobeys
    · rw [hpoisoned] at hlock
      cases hlock
    · exact absurd hnone hgranted
    · exact hobeys
  · intro functions federation hfree hcomputes hfederation
    constructor
    · intro hgated
      by_contra hcases
      push Not at hcases
      obtain ⟨hlock, ⟨first, hfirst, hanswered⟩, hdisobeys⟩ := hcases
      refine hdisobeys (hgated ?_)
      refine signPset_writes (hcomputes.contract hfederation) hfree s (.refl s.machine)
        (by simpa using hlock) hstored hfirst fun hrefused => ?_
      exact hanswered (hrefused hfree)
    · rintro (hlock | hnone | hobeys) hwritten
      · rw [(psetAgenda_of_written s hwritten).1] at hlock
        cases hlock
      · obtain ⟨first, sig, hfirst, hsig⟩ :=
          ((hcomputes.contract hfederation).signPset_wrotePart crates serde elements s
            (.refl s.machine)).exists_first hwritten
        exact absurd ((hnone first hfirst).symm.trans hsig) (by simp)
      · exact hobeys

end

open IdealVendor in
/-- Under a stored limit of 10, a PSET that pays out 5 gets a signature, and obeys the policy. -/
theorem pset_within_limit_signed :
    writtenBy ((signer []).signPset crates elements token serde)
        ⟨withPolicy ⟨some 10, none, none⟩ (machine []), false, ⟨[psetInput []], [⟨some 5, [1]⟩], []⟩, []⟩ ≠ [] ∧
      (⟨[psetInput []], [⟨some 5, [1]⟩], []⟩ : Pset Key).Obeys ⟨some 10, none, none⟩ := by
  have hwritten : writtenBy ((signer []).signPset crates elements token serde)
      ⟨withPolicy ⟨some 10, none, none⟩ (machine []), false, ⟨[psetInput []], [⟨some 5, [1]⟩], []⟩, []⟩ ≠ [] := by
    intro hnone
    have hlength := congrArg List.length hnone
    revert hlength
    decide
  refine ⟨hwritten, ?_⟩
  have hgated := ((policy_gates_iff token (signer []) crates elements serde ⟨some 10, none, none⟩).2
    ⟨withPolicy ⟨some 10, none, none⟩ (machine []), false, ⟨[psetInput []], [⟨some 5, [1]⟩], []⟩, []⟩ rfl).2
    _ _ (fun _ => rfl) (recipe.toHsmBackend_computes crates token fun taproot h =>
      Option.some.inj h ▸ taprootSigner_computes _ _ _) (rfl : _ = some _)
  refine hgated.mpr (Or.inr (Or.inr ⟨fun limit hlimit => ?_, fun whitelist h => ?_⟩)) hwritten
  · cases hlimit
    decide
  · cases h

open IdealVendor in
/-- Under a stored limit of 10, `sign_pset` signs a PSET that pays out 100. -/
theorem pset_over_limit_signed :
    (signer []).storedPolicy token serde (withPolicy ⟨some 10, none, none⟩ (machine [])) =
      .ok ⟨some 10, none, none⟩ ∧
    (∀ output ∈ [(⟨some 100, [1]⟩ : PsetOutput)], output.amount.isSome) ∧
    writtenBy ((signer []).signPset crates elements token serde)
      ⟨withPolicy ⟨some 10, none, none⟩ (machine []), false,
        ⟨[psetInput []], [⟨some 100, [1]⟩], []⟩, []⟩ ≠ [] ∧
    ¬(⟨[psetInput []], [⟨some 100, [1]⟩], []⟩ : Pset Key).Obeys ⟨some 10, none, none⟩ := by
  refine ⟨rfl, by simp, ?_, fun hobeys => ?_⟩
  · have hwritten : (writtenBy ((signer []).signPset crates elements token serde)
        ⟨withPolicy ⟨some 10, none, none⟩ (machine []), false,
          ⟨[psetInput []], [⟨some 100, [1]⟩], []⟩, []⟩).length = 1 := rfl
    intro hnone
    rw [hnone] at hwritten
    cases hwritten
  · have hlimit := hobeys.limit 10 rfl
    exact absurd hlimit (by decide)

end EmvaultPkcs11
