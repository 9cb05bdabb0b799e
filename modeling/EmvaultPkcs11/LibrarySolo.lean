import EmvaultPkcs11.LibraryRace

/-! Threads that cannot tell whether they are alone. The run of each thread in a race is coupled with the run that its
program would have on a device of its own: a view says which parts of the shared device stand for which parts of
the thread's own. If a turn keeps the coupling of the thread whose turn it is and of all threads whose views are
apart from it, every thread ends as it would end alone, once it has had as many turns as it makes calls alone. -/

open Effect

namespace Program

variable {I : Interface} {ε σ α ι W : Type}

/-- How many calls a program makes alone. -/
def turns (exec : (c : I.Call) → σ → I.Reply c × σ) : Program I ε α → σ → Nat
  | .done _ => fun _ => 0
  | .stop _ => fun _ => 0
  | .call c next => fun s => turns exec (next (exec c s).1) (exec c s).2 + 1

theorem ended_of_turns {exec : (c : I.Call) → σ → I.Reply c × σ} {p : Program I ε α} {s : σ}
    (h : turns exec p s = 0) : p.Ended := by
  cases p with
  | done a => trivial
  | stop e => trivial
  | call c next => exact (Nat.succ_ne_zero _ h).elim

/-- A coupling of a lone run, with a device of its own, and a thread of a race. -/
structure Coupling (exec : (c : I.Call) → σ → I.Reply c × σ) (ε α W : Type) where
  couples : W → Program I ε α → σ → Program I ε α → σ → Prop
  apart : W → W → Prop
  /-- Views stay apart, and what is coupled stays coupled, when a thread with a view apart makes its call. -/
  turn : ∀ {w : W} {c : I.Call} {next : I.Reply c → Program I ε α} {own : σ} {thread : Program I ε α} {device : σ},
    couples w (.call c next) own thread device →
      ∃ c' next' w', thread = .call c' next' ∧
        couples w' (next (exec c own).1) (exec c own).2 (next' (exec c' device).1) (exec c' device).2 ∧
        ∀ v rest own' thread', apart v w → apart w v → couples v rest own' thread' device →
          apart v w' ∧ apart w' v ∧ couples v rest own' thread' (exec c' device).2
  /-- A thread has a turn left only if its lone run has. -/
  ended : ∀ {w : W} {rest : Program I ε α} {own : σ} {thread : Program I ε α} {device : σ},
    couples w rest own thread device → rest.Ended → thread.Ended

namespace Coupling

variable {exec : (c : I.Call) → σ → I.Reply c × σ} (coupling : Coupling exec ε α W)

/-- The thread stands where its program would stand alone after that many turns. -/
def Stands (program : Program I ε α) (start : σ) (had : Nat) (w : W) (thread : Program I ε α) (device : σ) : Prop :=
  ∃ rest own, run exec rest own = run exec program start ∧
    turns exec rest own = turns exec program start - had ∧ coupling.couples w rest own thread device

variable [DecidableEq ι]

/-- All threads stand where they would stand alone, with views that are apart. -/
def Holds (programs : ι → Program I ε α) (start : σ) (had : ι → Nat) (s : Race I ε α σ ι) : Prop :=
  ∃ views : ι → W, (∀ i, coupling.Stands (programs i) start (had i) (views i) (s.threads i) s.device) ∧
    ∀ i j, i ≠ j → coupling.apart (views i) (views j)

variable {coupling}

/-- Step: a turn of any thread. -/
theorem Holds.step {programs : ι → Program I ε α} {start : σ} {had : ι → Nat} {s : Race I ε α σ ι}
    (h : coupling.Holds programs start had s) (i : ι) :
    coupling.Holds programs start (fun j => if j = i then had j + 1 else had j) (s.step exec i) := by
  obtain ⟨views, hstands, hapart⟩ := h
  obtain ⟨rest, own, hrun, hturns, hcouples⟩ := hstands i
  have hidle (hended : rest.Ended) (hzero : turns exec rest own = 0) :
      coupling.Holds programs start (fun j => if j = i then had j + 1 else had j) (s.step exec i) := by
    rw [Race.step_of_ended (coupling.ended hcouples hended)]
    refine ⟨views, fun j => ?_, hapart⟩
    by_cases hj : j = i
    · subst hj
      simp only [↓reduceIte]
      exact ⟨rest, own, hrun, by omega, hcouples⟩
    · simp only [if_neg hj]
      exact hstands j
  cases rest with
  | done a => exact hidle trivial rfl
  | stop e => exact hidle trivial rfl
  | call c next =>
      obtain ⟨c', next', w', hthread, hcouples', hothers⟩ := coupling.turn hcouples
      rw [Race.step_call hthread]
      have hother (j : ι) (hj : j ≠ i) : coupling.apart (views j) w' ∧ coupling.apart w' (views j) ∧
          coupling.Stands (programs j) start (had j) (views j) (s.threads j) (exec c' s.device).2 := by
        obtain ⟨rest', own', hrun', hturns', hcouples''⟩ := hstands j
        obtain ⟨hbefore, hafter, hkept⟩ := hothers _ _ _ _ (hapart j i hj) (hapart i j hj.symm) hcouples''
        exact ⟨hbefore, hafter, rest', own', hrun', hturns', hkept⟩
      refine ⟨Function.update views i w', fun j => ?_, fun j k hjk => ?_⟩
      · by_cases hj : j = i
        · subst hj
          simp only [Function.update_self, ↓reduceIte]
          have hleft : turns exec (next (exec c own).1) (exec c own).2 + 1 = turns exec (programs j) start - had j :=
            hturns
          exact ⟨next (exec c own).1, (exec c own).2, hrun, by omega, hcouples'⟩
        · simp only [Function.update_of_ne hj, if_neg hj]
          exact (hother j hj).2.2
      · by_cases hj : j = i
        · subst hj
          rw [Function.update_self, Function.update_of_ne hjk.symm]
          exact (hother k hjk.symm).2.1
        · by_cases hk : k = i
          · subst hk
            rw [Function.update_self, Function.update_of_ne hj]
            exact (hother j hj).1
          · rw [Function.update_of_ne hj, Function.update_of_ne hk]
            exact hapart j k hjk

/-- Run: any schedule. -/
theorem Holds.run {programs : ι → Program I ε α} {start : σ} (schedule : List ι) :
    ∀ {had : ι → Nat} {s : Race I ε α σ ι}, coupling.Holds programs start had s →
      coupling.Holds programs start (fun i => had i + schedule.count i) (s.run exec schedule) := by
  induction schedule with
  | nil => exact fun h => h
  | cons i schedule ih =>
      intro had s h
      have hcount : (fun j => had j + (i :: schedule).count j) =
          fun j => (if j = i then had j + 1 else had j) + schedule.count j := by
        funext j
        rw [List.count_cons]
        by_cases hj : j = i
        · simp [hj]
          omega
        · simp [hj, Ne.symm hj]
      rw [hcount]
      exact ih (h.step i)

end Coupling

end Program
