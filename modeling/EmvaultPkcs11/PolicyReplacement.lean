import EmvaultPkcs11.IdealVendor
import EmvaultPkcs11.PolicyStore

/-! What a replacement that fails leaves behind (`save_policy`, `save_sigrate`). The objects under a
label are destroyed before the new one is created, and an absent object is read as no limits or no
signatures, so a failure after the first destroy can lose the record that was in force. The module
says exactly when it does not. -/

open Effect

namespace EmvaultPkcs11

variable {K D R : Type}

/-- The same vendor and host, with every call served. -/
def Hsm.serving (hsm : Hsm K D) : Hsm K D := { hsm with fault := fun _ => none }

theorem Hsm.serving_faultFree (hsm : Hsm K D) : hsm.serving.FaultFree := fun _ => rfl

/-- The result of running a program, without the state it ends in. -/
def resultOf {ε α : Type} (hsm : Hsm K D) (p : TokenProgram K D ε α) (m : Machine K) :
    Except (Stop ε) α :=
  match (Program.run hsm.exec p).run m with
  | .ok a _ => .ok a
  | .error e _ => .error e

section

/-- The requirement on the token a failed replacement leaves: a later load gives the record of before
or the new one, and never the value that stands for no object where a record that says more (one that
is `guarded`) was in force. -/
def KeepsRecord (hsm : Hsm K D) (load : TokenProgram K D Pkcs11Error R) (absent : R)
    (guarded : R → Prop) (new : R) (m m' : Machine K) : Prop :=
  (resultOf hsm.serving load m' = resultOf hsm.serving load m ∨
    resultOf hsm.serving load m' = .ok new) ∧
  ∀ old, resultOf hsm.serving load m = .ok old → guarded old →
    resultOf hsm.serving load m' ≠ .ok absent

variable (hsm : Hsm K D) (objectLabel : String) (absent : R) (toVec : R → Except String Bytes)
  (fromSlice : Bytes → Except String R)

theorem resultOf_loadRecord (m : Machine K) :
    resultOf hsm.serving (loadRecord objectLabel absent fromSlice) m =
      hsm.stored objectLabel fromSlice absent m := by
  have hload := wp_loadRecord hsm.serving objectLabel absent fromSlice m
  unfold resultOf
  split
  case h_1 record m' hrun => exact (wp_of_run_ok hload hrun).1.symm
  case h_2 e m' hrun => exact ((wp_of_run_error hload hrun).1 hsm.serving_faultFree).symm

/-- When a replacement can fail without losing the record, from the objects under the label before it
(`records`), and the number `k` of them it has destroyed when a call fails: it has destroyed none, or
the one after those reads as the first or as the new record, or it has destroyed them all and there
was nothing to lose. Where a guarded record was in force, what is left must not be the absent value. -/
def FailsSafely (guarded : R → Prop) (new : R) (records : List (Except (Stop Pkcs11Error) R)) (k : Nat) :
    Prop :=
  k = 0 ∨
  (∀ first, records.head? = some first →
    match records[k]? with
    | some next => (next = first ∨ next = .ok new) ∧
        ∀ old, first = .ok old → guarded old → next ≠ .ok absent
    | none => (first = .ok absent ∨ new = absent) ∧ ∀ old, first = .ok old → ¬guarded old)

theorem stored_of_matching_drop {m m' : Machine K} {k : Nat}
    (h : m'.matching (recordQuery objectLabel) = (m.matching (recordQuery objectLabel)).drop k) :
    hsm.stored objectLabel fromSlice absent m' =
      ((hsm.records objectLabel fromSlice m)[k]?).getD (.ok absent) := by
  rw [Hsm.stored, List.headD_eq_head?_getD, Hsm.records, h, List.map_drop, List.head?_drop]
  rfl

/-- A replacement that returns an error keeps the record exactly when it fails safely. -/
theorem keepsRecord_iff (guarded : R → Prop) (hguarded : ¬guarded absent) (new : R)
    {m m' : Machine K} {e : Stop Pkcs11Error}
    (hrun : (Program.run hsm.exec (saveRecord objectLabel toVec new)).run m = .error e m') :
    KeepsRecord hsm (loadRecord objectLabel absent fromSlice) absent guarded new m m' ↔
      FailsSafely absent guarded new (hsm.records objectLabel fromSlice m)
        (hsm.destroyedBy objectLabel m) := by
  have hleft := (wp_of_run_error (wp_saveRecord hsm objectLabel toVec new m) hrun).1
  have hafter := stored_of_matching_drop hsm objectLabel absent fromSlice hleft
  have hle : hsm.destroyedBy objectLabel m ≤ (hsm.records objectLabel fromSlice m).length := by
    simpa [Hsm.records] using hsm.destroyedBy_le objectLabel m
  simp only [KeepsRecord, resultOf_loadRecord]
  rw [hafter]
  simp only [Hsm.stored, FailsSafely]
  generalize hsm.records objectLabel fromSlice m = records at hle
  generalize hsm.destroyedBy objectLabel m = k at hle
  cases records with
  | nil =>
      -- there was no object, so nothing was destroyed
      obtain rfl : k = 0 := by simpa using hle
      simp only [List.headD_nil, List.getElem?_nil, Option.getD_none, true_or, true_and, iff_true]
      intro old hold hguard
      exact absurd (Except.ok.inj hold ▸ hguard) hguarded
  | cons first rest =>
      simp only [List.headD_cons, List.head?_cons, Option.some.injEq, forall_eq']
      rcases Nat.eq_zero_or_pos k with rfl | hk
      · simp only [List.getElem?_cons_zero, Option.getD_some, true_or, true_and, iff_true]
        intro old hold hguard habsent
        exact hguarded (Except.ok.inj (hold.symm.trans habsent) ▸ hguard)
      · simp only [Nat.ne_of_gt hk, false_or]
        cases (first :: rest)[k]? with
        | some next => simp only [Option.getD_some]
        | none =>
            simp only [Option.getD_none, ne_eq, not_true_eq_false, imp_false, Except.ok.injEq]
            rw [eq_comm (a := Except.ok absent), eq_comm (a := absent)]

end

/-- `save_sigrate` fails where the replacement of its record fails. -/
theorem saveRecord_of_saveSigrate_error (hsm : Hsm K D) {serde : Serde} {label : String}
    {counter : SigRateCounter} {m m' : Machine K} {e : Stop Pkcs11Error}
    (hrun : (Program.run hsm.exec (saveSigrate serde label counter)).run m = .error e m') :
    (Program.run hsm.exec (saveRecord (sigrateLabel label) serde.counterToVec counter)).run m =
      .error e m' := by
  rw [saveSigrate, Program.run_bind, EStateM.run_bind] at hrun
  cases hsave : (Program.run hsm.exec
      (saveRecord (sigrateLabel label) serde.counterToVec counter)).run m with
  | ok _ m₁ =>
      rw [hsave] at hrun
      cases hrun
  | error e₁ m₁ =>
      rw [hsave] at hrun
      cases hrun
      rfl

/-- After `save_policy` returns an error the policy of before or the new one is in force, and a policy that
restricts has not become the permissive one, exactly where the replacement fails safely; and the same of
`save_sigrate`, with a counter that holds signatures of the last hour in the place of a policy that
restricts. -/
theorem replacement_keeps_iff (hsm : Hsm K D) (serde : Serde) (label : String) :
    (∀ policy m e m', (Program.run hsm.exec (savePolicy serde label policy)).run m = .error e m' →
      (KeepsRecord hsm (loadPolicy serde label) .permissive (· ≠ .permissive) policy m m' ↔
        FailsSafely .permissive (· ≠ .permissive) policy
          (hsm.records (policyLabel label) serde.policyFromSlice m)
          (hsm.destroyedBy (policyLabel label) m))) ∧
    ∀ counter now m e m', (Program.run hsm.exec (saveSigrate serde label counter)).run m = .error e m' →
      (KeepsRecord hsm (loadSigrate serde label) .default (fun old => (old.prune now).timestamps ≠ [])
          counter m m' ↔
        FailsSafely .default (fun old => (old.prune now).timestamps ≠ []) counter
          (hsm.records (sigrateLabel label) serde.counterFromSlice m)
          (hsm.destroyedBy (sigrateLabel label) m)) := by
  refine ⟨fun policy m e m' hrun => ?_, fun counter now m e m' hrun => ?_⟩
  · exact keepsRecord_iff hsm (policyLabel label) .permissive serde.policyToVec serde.policyFromSlice
      (· ≠ .permissive) (fun h => h rfl) policy hrun
  · exact keepsRecord_iff hsm (sigrateLabel label) .default serde.counterToVec serde.counterFromSlice
      (fun old => (old.prune now).timestamps ≠ []) (fun h => h rfl) counter (saveRecord_of_saveSigrate_error hsm hrun)

namespace IdealVendor

/-- A token whose first call fails. -/
def deaf : Hsm Key Digest := hsm [7] (fun n => if n = 0 then some ⟨0x30⟩ else none) fun n => n

/-- A token on which no object can be created once the one before it is destroyed. -/
def full : Hsm Key Digest := hsm [7] (fun n => if n = 2 then some ⟨0x31⟩ else none) fun n => n

/-- A token with a limit of 10. -/
def limitOfTen : Machine Key := withPolicy ⟨some 10, none, none⟩ .empty

/-- A token with a counter of one signature. -/
def countOfOne : Machine Key := Machine.empty.create ⟨recordTemplate (sigrateLabel "a") (strokes [5]), none⟩

end IdealVendor

open IdealVendor in
/-- The limit outlasts a replacement that cannot search; the counter does not outlast one that cannot create. -/
theorem limit_kept_counter_lost :
    KeepsRecord deaf (loadPolicy serde "a") .permissive (· ≠ .permissive) ⟨some 20, none, none⟩ limitOfTen
      (after (Program.run deaf.exec (savePolicy serde "a" ⟨some 20, none, none⟩)) limitOfTen) ∧
    ¬KeepsRecord full (loadSigrate serde "a") .default (fun old => (old.prune 7).timestamps ≠ []) ⟨[5, 7]⟩ countOfOne
      (after (Program.run full.exec (saveSigrate serde "a" ⟨[5, 7]⟩)) countOfOne) := by
  constructor
  · exact ((replacement_keeps_iff deaf serde "a").1 ⟨some 20, none, none⟩ limitOfTen (.err (.pkcs11 ⟨0x30⟩)) _ rfl).mpr
      (Or.inl rfl)
  · intro hkeeps
    rcases ((replacement_keeps_iff full serde "a").2 ⟨[5, 7]⟩ 7 countOfOne (.err (.pkcs11 ⟨0x31⟩)) _ rfl).mp hkeeps with
      hnone | hsafe
    · exact absurd hnone (by decide +kernel)
    · have hlost := hsafe (.ok ⟨[5]⟩) rfl
      exact hlost.2 ⟨[5]⟩ rfl (by decide +kernel)

open IdealVendor in
/-- A limit of 10 is in force and a limit of 20 is to take its place, but the token fails the last call:
the limit of before has been destroyed, and the permissive policy is in force. -/
theorem failed_save_leaves_permissive :
    resultOf token (loadPolicy serde "a") (withPolicy ⟨some 10, none, none⟩ .empty) =
      .ok ⟨some 10, none, none⟩ ∧
    (match (Program.run (hsm [7] (fun n => if n = 2 then some ⟨0x30⟩ else none) fun n => n).exec
        (savePolicy serde "a" ⟨some 20, none, none⟩)).run (withPolicy ⟨some 10, none, none⟩ .empty) with
      | .ok _ _ => none
      | .error e m => some (e, resultOf token (loadPolicy serde "a") m)) =
      some (.err (.pkcs11 ⟨0x30⟩), .ok .permissive) :=
  ⟨rfl, rfl⟩

end EmvaultPkcs11
