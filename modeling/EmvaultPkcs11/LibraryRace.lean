import EmvaultPkcs11.LibraryProgram

/-! Programs side by side on one device. Each thread has a program of its own and runs it once; a schedule says
whose next call is made. -/

namespace Program

variable {I : Interface} {ε σ α ι : Type}

/-- A program has come to its end. -/
def Ended : Program I ε α → Prop
  | .call _ _ => False
  | _ => True

instance decidableEnded (p : Program I ε α) : Decidable p.Ended := by
  cases p <;> unfold Ended <;> infer_instance

/-- The device, and what is left of each thread's program. -/
structure Race (I : Interface) (ε α σ ι : Type) where
  device : σ
  threads : ι → Program I ε α

namespace Race

variable [DecidableEq ι] (exec : (c : I.Call) → σ → I.Reply c × σ)

/-- Thread `i` makes its next call, if it has one. -/
def step (s : Race I ε α σ ι) (i : ι) : Race I ε α σ ι :=
  match s.threads i with
  | .call c next => ⟨(exec c s.device).2, Function.update s.threads i (next (exec c s.device).1)⟩
  | _ => s

def run (s : Race I ε α σ ι) (schedule : List ι) : Race I ε α σ ι := schedule.foldl (step exec) s

variable {exec}

theorem step_call {s : Race I ε α σ ι} {i : ι} {c : I.Call} {next : I.Reply c → Program I ε α}
    (h : s.threads i = .call c next) :
    s.step exec i = ⟨(exec c s.device).2, Function.update s.threads i (next (exec c s.device).1)⟩ := by
  rw [step, h]

theorem step_of_ended {s : Race I ε α σ ι} {i : ι} (h : (s.threads i).Ended) : s.step exec i = s := by
  unfold step
  cases hrest : s.threads i with
  | call c next =>
      rw [hrest] at h
      exact h.elim
  | done a => rfl
  | stop e => rfl

theorem run_append_singleton (s : Race I ε α σ ι) (schedule : List ι) (i : ι) :
    s.run exec (schedule ++ [i]) = (s.run exec schedule).step exec i := by
  rw [run, List.foldl_append]
  rfl

variable (exec)

/-- In the course of the schedule thread `i` has made a call of which `P` holds, with the device as the call
found it. -/
def Made (start : Race I ε α σ ι) (schedule : List ι) (i : ι) (P : I.Call → σ → Prop) : Prop :=
  ∃ before after call next, schedule = before ++ i :: after ∧
    (start.run exec before).threads i = .call call next ∧ P call (start.run exec before).device

variable {exec}

theorem Made.later {start : Race I ε α σ ι} {schedule : List ι} {i : ι} {P : I.Call → σ → Prop}
    (h : start.Made exec schedule i P) (j : ι) : start.Made exec (schedule ++ [j]) i P := by
  obtain ⟨before, after, call, next, rfl, hthread, hcall⟩ := h
  exact ⟨before, after ++ [j], call, next, by simp, hthread, hcall⟩

theorem Made.now {start : Race I ε α σ ι} {schedule : List ι} {i : ι} {P : I.Call → σ → Prop} {call : I.Call}
    {next : I.Reply call → Program I ε α} (hthread : (start.run exec schedule).threads i = .call call next)
    (hcall : P call (start.run exec schedule).device) : start.Made exec (schedule ++ [i]) i P :=
  ⟨schedule, [], call, next, rfl, hthread, hcall⟩

end Race

end Program
