import EmvaultPkcs11.LibraryProgram

/-! Stateful computations over a device as programs. A computation that keeps a local state and calls a device is
written once more as the tree of the calls it makes, with the local state passed along, so that it can take turns
with others on the device. Realizing the computation means that the tree, run alone, does the same. -/

namespace Effect

variable {ε S α : Type}

/-- How a computation has ended. -/
def ending : EStateM.Result ε S α → Except ε α
  | .ok a _ => .ok a
  | .error e _ => .error e

/-- The end of a computation that leaves this state. -/
def toResult : Except ε α → S → EStateM.Result ε S α
  | .ok a, s => .ok a s
  | .error e, s => .error e s

@[simp] theorem ending_toResult (r : Except ε α) (s : S) : ending (toResult r s) = r := by
  cases r <;> rfl

theorem after_toResult {x : EStateM ε S α} {r : Except ε α} {s s' : S} (h : x.run s = toResult r s') :
    after x s = s' := by
  rw [after, h]
  cases r <;> rfl

end Effect

open Effect

namespace Program

variable {I : Interface} {ε ζ α : Type}

/-- The same calls, with the end of the program as its result. -/
def outcome : Program I ε α → Program I ζ (Except ε α)
  | .done a => .done (.ok a)
  | .stop e => .done (.error e)
  | .call c next => .call c fun reply => (next reply).outcome

theorem run_outcome {σ : Type} (exec : (c : I.Call) → σ → I.Reply c × σ) (p : Program I ε α) : ∀ s,
    (run exec (p.outcome : Program I ζ (Except ε α))).run s =
      .ok (ending ((run exec p).run s)) (after (run exec p) s) := by
  induction p with
  | done a => exact fun s => rfl
  | stop e => exact fun s => rfl
  | call c next ih => exact fun s => ih (exec c s).1 (exec c s).2

end Program

/-- A computation with a local state of type `T`, as the calls it makes. It never stops: how it ends is its result. -/
def CallM (I : Program.Interface) (T ε α : Type) : Type := T → Program I (Stop Empty) (Except (Stop ε) α × T)

namespace CallM

variable {I : Program.Interface} {T S φ ε ε' σ α β γ : Type}

/-- What comes after a part that has ended so. -/
def resume (f : α → CallM I T ε β) : Except (Stop ε) α × T → Program I (Stop Empty) (Except (Stop ε) β × T)
  | (.ok a, t) => f a t
  | (.error e, t) => .done (.error e, t)

instance : Monad (CallM I T ε) where
  pure a := fun t => .done (.ok a, t)
  bind x f := fun t => x t >>= resume f

def current : CallM I T ε T := fun t => .done (.ok t, t)

def update (f : T → T) : CallM I T ε Unit := fun t => .done (.ok (), f t)

def ofResult (x : Except (Stop ε) α) : CallM I T ε α := fun t => .done (x, t)

def orErr (x : Except ε α) : CallM I T ε α := ofResult (x.mapError .err)

/-- An error as a value, unless it is a panic. -/
def caught : Except (Stop ε) α → Except (Stop ε') (Except ε α)
  | .ok a => .ok (.ok a)
  | .error (.err e) => .ok (.error e)
  | .error (.panic message) => .error (.panic message)

/-- Run `x` and hand its error, if it ends with one, to the caller as a value. -/
def attempt (x : CallM I T ε α) : CallM I T ε' (Except ε α) := fun t => x t >>= fun r => .done (caught r.1, r.2)

/-- The calls of a program, with its errors as `wrap` converts them. -/
def calls (wrap : ε' → ε) (p : Program I (Stop ε') α) : CallM I T ε α := fun t =>
  p.outcome >>= fun r => .done (r.mapError (Stop.map wrap), t)

/-- The calls, run alone, do what the computation does to the device and to the local state; what `frame` reads of
the state the computation leaves as it was. -/
def Realizes (exec : (c : I.Call) → σ → I.Reply c × σ) (device : S → σ) (own : S → T) (frame : S → φ)
    (calls : CallM I T ε α) (x : EStateM (Stop ε) S α) : Prop :=
  ∀ s, ∃ r s', (Program.run exec (calls (own s))).run (device s) = .ok (r, own s') (device s') ∧
    x.run s = toResult r s' ∧ frame s' = frame s

namespace Realizes

variable {exec : (c : I.Call) → σ → I.Reply c × σ} {device : S → σ} {own : S → T} {frame : S → φ}

theorem pure (a : α) : Realizes exec device own frame (Pure.pure a : CallM I T ε α) (Pure.pure a) :=
  fun s => ⟨.ok a, s, rfl, rfl, rfl⟩

theorem ofResult (x : Except (Stop ε) α) :
    Realizes exec device own frame (CallM.ofResult x : CallM I T ε α) (Effect.ofResult x) := by
  intro s
  refine ⟨x, s, rfl, ?_, rfl⟩
  cases x <;> rfl

theorem orErr (x : Except ε α) : Realizes exec device own frame (CallM.orErr x : CallM I T ε α) (Effect.orErr x) := by
  intro s
  refine ⟨x.mapError .err, s, rfl, ?_, rfl⟩
  cases x <;> rfl

theorem throw (e : Stop ε) :
    Realizes exec device own frame (CallM.ofResult (.error e) : CallM I T ε α) (MonadExcept.throw e) :=
  fun s => ⟨.error e, s, rfl, rfl, rfl⟩

/-- Sequencing. -/
theorem bind {x' : CallM I T ε α} {x : EStateM (Stop ε) S α} {f' : α → CallM I T ε β}
    {f : α → EStateM (Stop ε) S β} (hx : Realizes exec device own frame x' x)
    (hf : ∀ a, Realizes exec device own frame (f' a) (f a)) : Realizes exec device own frame (x' >>= f') (x >>= f) := by
  intro s
  obtain ⟨r, s₁, hrun, hresult, hframe⟩ := hx s
  have hcalls : (Program.run exec ((x' >>= f') (own s))).run (device s) =
      (Program.run exec (resume f' (r, own s₁))).run (device s₁) := by
    show (Program.run exec (x' (own s) >>= _)).run (device s) = _
    rw [Program.run_bind, EStateM.run_bind, hrun]
  rw [hcalls, EStateM.run_bind, hresult]
  cases r with
  | ok a =>
      obtain ⟨r', s', hrun', hresult', hframe'⟩ := hf a s₁
      exact ⟨r', s', hrun', hresult', hframe'.trans hframe⟩
  | error e => exact ⟨.error e, s₁, rfl, rfl, hframe⟩

theorem current_bind {f' : T → CallM I T ε β} {f : S → EStateM (Stop ε) S β}
    (hf : ∀ s, Realizes exec device own frame (f' (own s)) (f s)) :
    Realizes exec device own frame (CallM.current >>= f') (MonadState.get >>= f) := fun s => hf s s

theorem update {f' : T → T} {f : S → S} (hdevice : ∀ s, device (f s) = device s)
    (hown : ∀ s, own (f s) = f' (own s)) (hframe : ∀ s, frame (f s) = frame s) :
    Realizes exec device own frame (CallM.update f' : CallM I T ε Unit) (modify f) := by
  intro s
  refine ⟨.ok (), f s, ?_, rfl, hframe s⟩
  rw [hdevice, hown]
  rfl

theorem attempt {x' : CallM I T ε α} {x : EStateM (Stop ε) S α} (hx : Realizes exec device own frame x' x) :
    Realizes exec device own frame (CallM.attempt x' : CallM I T ε' (Except ε α)) (Effect.attempt x) := by
  intro s
  obtain ⟨r, s₁, hrun, hresult, hframe⟩ := hx s
  refine ⟨caught r, s₁, ?_, ?_, hframe⟩
  · show (Program.run exec (x' (own s) >>= _)).run (device s) = _
    rw [Program.run_bind, EStateM.run_bind, hrun]
    rfl
  · have hx' : x s = toResult r s₁ := hresult
    cases r with
    | ok a => simp [EStateM.run, Effect.attempt, hx', toResult, caught]
    | error e => cases e <;> simp [EStateM.run, Effect.attempt, hx', toResult, caught]

/-- A program that runs on the device part of the state. -/
theorem calls {put : σ → S → S} (hdevice : ∀ m s, device (put m s) = m) (hown : ∀ m s, own (put m s) = own s)
    (hframe : ∀ m s, frame (put m s) = frame s) (wrap : ε' → ε) (p : Program I (Stop ε') α) :
    Realizes exec device own frame (CallM.calls wrap p : CallM I T ε α)
      (mapErr wrap (onPart device put (Program.run exec p))) := by
  intro s
  have hcalls : (Program.run exec ((CallM.calls wrap p : CallM I T ε α) (own s))).run (device s) =
      .ok ((ending ((Program.run exec p).run (device s))).mapError (Stop.map wrap), own s)
        (after (Program.run exec p) (device s)) := by
    show (Program.run exec (p.outcome >>= _)).run (device s) = _
    rw [Program.run_bind, EStateM.run_bind, Program.run_outcome]
    rfl
  rw [hcalls, after]
  simp only [mapErr, onPart, EStateM.adaptExcept, EStateM.run]
  cases hrun : Program.run exec p (device s) with
  | ok a m => exact ⟨.ok a, put m s, by simp only [hdevice, hown]; rfl, rfl, hframe m s⟩
  | error e m => exact ⟨.error (e.map wrap), put m s, by simp only [hdevice, hown]; rfl, rfl, hframe m s⟩

/-- Loops. -/
theorem foldlM {f' : β → γ → CallM I T ε β} {f : β → γ → EStateM (Stop ε) S β}
    (hf : ∀ b c, Realizes exec device own frame (f' b c) (f b c)) (l : List γ) :
    ∀ b, Realizes exec device own frame (l.foldlM f' b) (l.foldlM f b) := by
  induction l with
  | nil => exact fun b => pure b
  | cons c l ih => exact fun b => (hf b c).bind ih

/-- What the frame reads is left alone. -/
theorem leaves {calls : CallM I T ε α} {x : EStateM (Stop ε) S α}
    (h : Realizes exec device own frame calls x) : Leaves frame x := by
  intro s
  obtain ⟨r, s', _, hresult, hframe⟩ := h s
  unfold wp
  rw [hresult]
  cases r with
  | ok a => exact hframe
  | error e => exact hframe

end Realizes

end CallM
