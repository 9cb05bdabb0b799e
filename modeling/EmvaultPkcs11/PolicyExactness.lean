import EmvaultPkcs11.IdealVendor
import EmvaultPkcs11.PolicyRules

/-! Where `check_against_psbt` is exact. It returns `Ok` for the PSBTs the policy allows and for no others,
and it comes back with an error for the others, except that under a limit it adds up the outputs with an
addition that panics when the sum does not fit 64 bits. A PSBT can have such outputs. -/

open Effect

namespace EmvaultPkcs11

variable {K D : Type}

/-- The sum of the output values, over the integers. -/
def Psbt.outputTotal (psbt : Psbt K) : Nat := ((psbt.unsignedTx.output.map TxOut.value).map UInt64.toNat).sum

/-- A result that is not a panic. -/
def Calm {ε α : Type} (x : Except (Stop ε) α) : Prop := ∀ message, x ≠ .error (.panic message)

namespace Calm

variable {ε α β : Type}

theorem ok (a : α) : Calm (.ok a : Except (Stop ε) α) := by
  rintro message ⟨⟩

theorem err (e : ε) : Calm (.error (.err e) : Except (Stop ε) α) := by
  rintro message ⟨⟩

theorem bind {x : Except (Stop ε) α} {f : α → Except (Stop ε) β} (hx : Calm x) (hf : ∀ a, Calm (f a)) :
    Calm (x >>= f) := by
  cases x with
  | ok a => exact hf a
  | error e =>
      rintro message heq
      exact hx message (by rw [Except.error.inj heq])

theorem mapM {γ : Type} {f : γ → Except (Stop ε) α} (hf : ∀ c, Calm (f c)) (l : List γ) : Calm (l.mapM f) := by
  induction l with
  | nil => exact ok []
  | cons c l ih =>
      rw [List.mapM_cons]
      exact (hf c).bind fun a => ih.bind fun as => ok (a :: as)

theorem forM {γ : Type} {f : γ → Except (Stop ε) Unit} (hf : ∀ c, Calm (f c)) (l : List γ) :
    Calm (l.forM f) := by
  induction l with
  | nil => exact ok ()
  | cons c l ih => exact (hf c).bind fun _ => ih

end Calm

section

variable {ε ε' α β : Type} {x : Except (Stop ε) α}

theorem not_calm_bind_iff {f : α → Except (Stop ε) β} :
    ¬Calm (x >>= f) ↔ ¬Calm x ∨ ∃ a, x = .ok a ∧ ¬Calm (f a) := by
  cases x with
  | error stop => cases stop <;> simp [Calm, bind, Except.bind]
  | ok a => simp [Calm, bind, Except.bind]

/-- What cannot panic does not matter to whether what comes before it does. -/
theorem calm_bind_iff {f : α → Except (Stop ε) β} (hf : ∀ a, Calm (f a)) : Calm (x >>= f) ↔ Calm x := by
  rw [← not_iff_not, not_calm_bind_iff, or_iff_left]
  rintro ⟨a, -, hpanic⟩
  exact hpanic (hf a)

theorem calm_mapError_iff {f : ε → ε'} : Calm (x.mapError (Stop.map f)) ↔ Calm x := by
  cases x with
  | error stop => cases stop <;> simp [Calm, Except.mapError]
  | ok a => simp [Calm, Except.mapError]

end

/-! ### The sum -/

theorem foldlM_add_eq_error {ε : Type} {e : Stop ε} (outputs : List TxOut) :
    ∀ total : Amount,
      outputs.foldlM (fun total output => Amount.add (ε := ε) total output.value) total = .error e →
        e = .panic "Amount addition error" := by
  induction outputs with
  | nil =>
      intro total h
      cases h
  | cons output outputs ih =>
      intro total h
      rw [List.foldlM_cons] at h
      cases hadd : Amount.add (ε := ε) total output.value with
      | ok total' =>
          rw [hadd] at h
          exact ih total' h
      | error e' =>
          rw [hadd] at h
          rw [← Except.error.inj h]
          unfold Amount.add at hadd
          split at hadd
          · cases hadd
          · exact (Except.error.inj hadd).symm

/-- The sum of the outputs panics exactly when it does not fit 64 bits. -/
theorem totalOut_calm_iff {ε : Type} (psbt : Psbt K) :
    Calm (totalOut (ε := ε) psbt.unsignedTx.output) ↔ psbt.outputTotal < 2 ^ 64 := by
  constructor
  · intro hcalm
    cases htotal : totalOut (ε := ε) psbt.unsignedTx.output with
    | ok total =>
        rw [Psbt.outputTotal, ← (totalOut_eq_ok_iff _ total).mp htotal]
        exact total.toNat_lt
    | error e =>
        obtain rfl := foldlM_add_eq_error _ _ htotal
        exact absurd htotal (hcalm _)
  · intro hfits
    have hok : totalOut (ε := ε) psbt.unsignedTx.output = .ok (UInt64.ofNat psbt.outputTotal) := by
      rw [totalOut_eq_ok_iff, UInt64.toNat_ofNat_of_lt' hfits, Psbt.outputTotal]
    rw [hok]
    exact .ok _

/-! ### The two rules -/

section

variable (crates : Crates D)

theorem checkLimit_calm_iff (limit : Amount) (psbt : Psbt K) :
    Calm (checkLimit crates limit psbt.unsignedTx.output) ↔ psbt.outputTotal < 2 ^ 64 := by
  rw [← totalOut_calm_iff (ε := Pkcs11Error), checkLimit]
  cases totalOut (ε := Pkcs11Error) psbt.unsignedTx.output with
  | error e =>
      refine forall_congr' fun message => not_congr ?_
      exact ⟨fun h => congrArg Except.error (Except.error.inj h), fun h => congrArg Except.error (Except.error.inj h)⟩
  | ok total =>
      refine iff_of_true ?_ (.ok total)
      refine (Calm.ok total).bind fun total => ?_
      split
      · exact .err _
      · exact .ok ()

theorem checkWhitelist_calm (network : Network) (whitelist : List Address) (outputs : List TxOut) :
    Calm (checkWhitelist crates network whitelist outputs) := by
  refine (Calm.mapM (fun address => ?_) whitelist).bind fun allowed => Calm.forM (fun output => ?_) outputs
  · unfold Address.scriptOn
    split
    · exact .ok _
    · exact .err _
  · split
    · exact .ok ()
    · exact .err _

/-- The check panics exactly where it adds up outputs that do not fit 64 bits. -/
theorem checkAgainstPsbt_calm_iff (policy : MinimalHsmPolicy) (psbt : Psbt K) (network : Network) :
    Calm (policy.checkAgainstPsbt crates psbt network) ↔
      (policy.perTransactionLimit = none ∨ psbt.outputTotal < 2 ^ 64) := by
  unfold MinimalHsmPolicy.checkAgainstPsbt
  cases policy.perTransactionLimit with
  | none =>
      refine iff_of_true ((Calm.ok ()).bind fun _ => ?_) (Or.inl rfl)
      split
      · exact checkWhitelist_calm crates network _ _
      · exact .ok ()
  | some limit =>
      simp only [reduceCtorEq, false_or, ← checkLimit_calm_iff crates limit psbt]
      refine calm_bind_iff fun _ => ?_
      split
      · exact checkWhitelist_calm crates network _ _
      · exact .ok ()

end

/-- The check comes back without a panic and with `Ok` for exactly the PSBTs the policy allows, if and only
if there is no limit or the output values add up to less than `2^64`. -/
theorem checkAgainstPsbt_exact_iff (crates : Crates D) (policy : MinimalHsmPolicy) (psbt : Psbt K)
    (network : Network) :
    (Calm (policy.checkAgainstPsbt crates psbt network) ∧
      (policy.checkAgainstPsbt crates psbt network = .ok () ↔
        policy.OnNetwork network ∧ psbt.Obeys policy)) ↔
      (policy.perTransactionLimit = none ∨ psbt.outputTotal < 2 ^ 64) := by
  rw [checkAgainstPsbt_calm_iff]
  exact and_iff_left (checkAgainstPsbt_eq_ok_iff crates policy psbt network)

/-- Two outputs whose values do not fit 64 bits together make the check panic under any limit, such as 10. -/
theorem overflowing_outputs_panic :
    ¬Calm (MinimalHsmPolicy.checkAgainstPsbt IdealVendor.crates ⟨some 10, none, none⟩
      (IdealVendor.psbtOf [] [⟨0xFFFFFFFFFFFFFFFF, []⟩, ⟨1, []⟩]) .bitcoin) := by
  intro hcalm
  exact hcalm "Amount addition error" rfl

end EmvaultPkcs11
