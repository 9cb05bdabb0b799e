import Mathlib

/-! Computations that change a state and may stop early, and the rules for reasoning about them.
`EStateM` keeps the state a computation had reached when it stopped, which is what a caller of a
function with `&mut` arguments and a `Result` sees. `wp` is the weakest precondition for a pair of
postconditions, one for a normal end and one for an early stop; the rules below let a proof follow
a `do` block line by line, citing one specification per callee. -/

namespace Effect

/-- How a computation stops early: with an error its caller can handle, or by a panic. -/
inductive Stop (ε : Type) where
  | err (e : ε)
  | panic (message : String)
  deriving DecidableEq

/-- A conversion of errors leaves panics as they are. -/
def Stop.map {ε ε' : Type} (f : ε → ε') : Stop ε → Stop ε'
  | .err e => .err (f e)
  | .panic message => .panic message

@[simp] theorem Stop.map_err {ε ε' : Type} (f : ε → ε') (e : ε) :
    (Stop.err e).map f = .err (f e) := rfl

@[simp] theorem Stop.map_panic {ε ε' : Type} (f : ε → ε') (message : String) :
    (Stop.panic message : Stop ε).map f = .panic message := rfl

/-- A converted error is an error. -/
theorem Stop.exists_map_eq_err {ε ε' : Type} {e : Stop ε} (f : ε → ε') (h : ∃ a, e = .err a) :
    ∃ b, e.map f = .err b := by
  obtain ⟨a, rfl⟩ := h
  exact ⟨f a, rfl⟩

variable {ε ε' σ τ α β : Type}

/-- The weakest precondition of `x` for a normal end in `Q` and an early stop in `E`. -/
def wp (x : EStateM ε σ α) (Q : α → σ → Prop) (E : ε → σ → Prop) (s : σ) : Prop :=
  match x.run s with
  | .ok a s' => Q a s'
  | .error e s' => E e s'

theorem wp_of_run_ok {x : EStateM ε σ α} {Q : α → σ → Prop} {E : ε → σ → Prop} {s s' : σ} {a : α}
    (h : wp x Q E s) (hrun : x.run s = .ok a s') : Q a s' := by
  simpa only [wp, hrun] using h

theorem wp_of_run_error {x : EStateM ε σ α} {Q : α → σ → Prop} {E : ε → σ → Prop} {s s' : σ} {e : ε}
    (h : wp x Q E s) (hrun : x.run s = .error e s') : E e s' := by
  simpa only [wp, hrun] using h

/-- What a computation returns and leaves is what its run says. -/
theorem wp_run_eq (x : EStateM ε σ α) (s : σ) :
    wp x (fun a s' => x.run s = .ok a s') (fun e s' => x.run s = .error e s') s := by
  unfold wp
  cases x.run s <;> rfl

/-- Consequence: weaker postconditions hold where stronger ones do. -/
theorem wp_mono {x : EStateM ε σ α} {Q Q' : α → σ → Prop} {E E' : ε → σ → Prop} {s : σ}
    (h : wp x Q E s) (hQ : ∀ a s', Q a s' → Q' a s') (hE : ∀ e s', E e s' → E' e s') :
    wp x Q' E' s := by
  unfold wp at h ⊢
  split at h
  · exact hQ _ _ h
  · exact hE _ _ h

theorem wp_and {x : EStateM ε σ α} {Q Q' : α → σ → Prop} {E E' : ε → σ → Prop} {s : σ}
    (h : wp x Q E s) (h' : wp x Q' E' s) :
    wp x (fun a s' => Q a s' ∧ Q' a s') (fun e s' => E e s' ∧ E' e s') s := by
  unfold wp at h h' ⊢
  cases hx : x.run s <;> simp only [hx] at h h' <;> exact ⟨h, h'⟩

/-- The state a computation ends in, however it ends. -/
def after (x : EStateM ε σ α) (s : σ) : σ :=
  match x.run s with
  | .ok _ s' => s'
  | .error _ s' => s'

/-- What both postconditions say of the state holds of the state the computation ends in. -/
theorem after_of_wp {x : EStateM ε σ α} {P : σ → Prop} {Q : α → σ → Prop} {E : ε → σ → Prop} {s : σ}
    (h : wp x Q E s) (hQ : ∀ a s', Q a s' → P s') (hE : ∀ e s', E e s' → P s') : P (after x s) := by
  unfold wp at h
  unfold after
  cases hx : x.run s with
  | ok a s' => exact hQ a s' (by simpa only [hx] using h)
  | error e s' => exact hE e s' (by simpa only [hx] using h)

@[simp] theorem wp_pure (a : α) (Q : α → σ → Prop) (E : ε → σ → Prop) (s : σ) :
    wp (pure a : EStateM ε σ α) Q E s ↔ Q a s := Iff.rfl

@[simp] theorem wp_throw (e : ε) (Q : α → σ → Prop) (E : ε → σ → Prop) (s : σ) :
    wp (throw e : EStateM ε σ α) Q E s ↔ E e s := Iff.rfl

@[simp] theorem wp_get (Q : σ → σ → Prop) (E : ε → σ → Prop) (s : σ) :
    wp (get : EStateM ε σ σ) Q E s ↔ Q s s := Iff.rfl

@[simp] theorem wp_modify (f : σ → σ) (Q : PUnit → σ → Prop) (E : ε → σ → Prop) (s : σ) :
    wp (modify f : EStateM ε σ PUnit) Q E s ↔ Q ⟨⟩ (f s) := Iff.rfl

/-- Sequencing: what follows runs from the state and value the first part ends with. -/
@[simp] theorem wp_bind (x : EStateM ε σ α) (f : α → EStateM ε σ β) (Q : β → σ → Prop)
    (E : ε → σ → Prop) (s : σ) :
    wp (x >>= f) Q E s ↔ wp x (fun a s' => wp (f a) Q E s') E s := by
  simp only [wp, EStateM.run_bind]
  cases x.run s <;> rfl

theorem wp_ite (c : Prop) [Decidable c] (x y : EStateM ε σ α) (Q : α → σ → Prop)
    (E : ε → σ → Prop) (s : σ) :
    wp (if c then x else y) Q E s ↔ (c → wp x Q E s) ∧ (¬c → wp y Q E s) := by
  split <;> simp [*]

/-! ### Moving between errors and between states -/

/-- Run `x` with its errors converted by `f`. -/
def mapErr (f : ε → ε') (x : EStateM (Stop ε) σ α) : EStateM (Stop ε') σ α :=
  EStateM.adaptExcept (Stop.map f) x

@[simp] theorem wp_mapErr (f : ε → ε') (x : EStateM (Stop ε) σ α) (Q : α → σ → Prop)
    (E : Stop ε' → σ → Prop) (s : σ) :
    wp (mapErr f x) Q E s ↔ wp x Q (fun e => E (e.map f)) s := by
  simp only [wp, mapErr, EStateM.adaptExcept, EStateM.run]
  cases x s <;> rfl

/-- Run `x` and hand its error, if it ends with one, to the caller as a value. -/
def attempt (x : EStateM (Stop ε) σ α) : EStateM (Stop ε') σ (Except ε α) := fun s =>
  match x.run s with
  | .ok a s' => .ok (.ok a) s'
  | .error (.err e) s' => .ok (.error e) s'
  | .error (.panic message) s' => .error (.panic message) s'

@[simp] theorem wp_attempt (x : EStateM (Stop ε) σ α) (Q : Except ε α → σ → Prop)
    (E : Stop ε' → σ → Prop) (s : σ) :
    wp (attempt x : EStateM (Stop ε') σ (Except ε α)) Q E s ↔
      wp x (fun a => Q (.ok a)) (fun e s' => match e with
        | .err e => Q (.error e) s'
        | .panic message => E (.panic message) s') s := by
  simp only [wp, attempt, EStateM.run]
  cases x s with
  | ok a s' => rfl
  | error e s' => cases e <;> rfl

/-- Run a computation on the part of the state that `view` reads and `put` replaces. -/
def onPart (view : σ → τ) (put : τ → σ → σ) (x : EStateM ε τ α) : EStateM ε σ α := fun s =>
  match x.run (view s) with
  | .ok a t => .ok a (put t s)
  | .error e t => .error e (put t s)

@[simp] theorem wp_onPart (view : σ → τ) (put : τ → σ → σ) (x : EStateM ε τ α)
    (Q : α → σ → Prop) (E : ε → σ → Prop) (s : σ) :
    wp (onPart view put x) Q E s ↔
      wp x (fun a t => Q a (put t s)) (fun e t => E e (put t s)) (view s) := by
  simp only [wp, onPart, EStateM.run]
  cases x (view s) <;> rfl

/-- Go on with the result of an `Except` value, or stop as it says. -/
def ofResult (x : Except ε α) : EStateM ε σ α :=
  match x with
  | .ok a => pure a
  | .error e => throw e

@[simp] theorem wp_ofResult (x : Except ε α) (Q : α → σ → Prop) (E : ε → σ → Prop) (s : σ) :
    wp (ofResult x : EStateM ε σ α) Q E s ↔
      (∀ a, x = .ok a → Q a s) ∧ (∀ e, x = .error e → E e s) := by
  cases x <;> simp [ofResult]

/-- Go on with the result of an `Except` value, or stop with its error. -/
def orErr (x : Except ε α) : EStateM (Stop ε) σ α :=
  match x with
  | .ok a => pure a
  | .error e => throw (.err e)

@[simp] theorem wp_orErr (x : Except ε α) (Q : α → σ → Prop) (E : Stop ε → σ → Prop) (s : σ) :
    wp (orErr x : EStateM (Stop ε) σ α) Q E s ↔
      (∀ a, x = .ok a → Q a s) ∧ (∀ e, x = .error e → E (.err e) s) := by
  cases x <;> simp [orErr]

/-! ### Results without a state -/

/-- A sequence succeeds when each of its steps does. -/
theorem bind_eq_ok {x : Except ε α} {f : α → Except ε β} {b : β} :
    x >>= f = .ok b ↔ ∃ a, x = .ok a ∧ f a = .ok b := by
  cases x with
  | error e => simp [bind, Except.bind]
  | ok a => simp [bind, Except.bind]

theorem mapError_eq_ok {x : Except ε α} {f : ε → ε'} {a : α} : x.mapError f = .ok a ↔ x = .ok a := by
  cases x <;> simp [Except.mapError]

theorem forM_eq_ok (f : α → Except ε Unit) (l : List α) :
    l.forM f = .ok () ↔ ∀ a ∈ l, f a = .ok () := by
  induction l with
  | nil => simp [List.forM, pure, Except.pure]
  | cons a l ih =>
      rw [List.forM, bind_eq_ok, List.forall_mem_cons, ← ih]
      exact ⟨fun ⟨_, ha, hl⟩ => ⟨ha, hl⟩, fun ⟨ha, hl⟩ => ⟨(), ha, hl⟩⟩

/-- A list whose elements pass a check that returns `g` maps to the list of the results. -/
theorem mapM_eq_ok {f : α → Except ε β} {p : α → Prop} {g : α → β}
    (hf : ∀ a b, f a = .ok b ↔ p a ∧ b = g a) (l : List α) (bs : List β) :
    l.mapM f = .ok bs ↔ (∀ a ∈ l, p a) ∧ bs = l.map g := by
  induction l generalizing bs with
  | nil => simp [pure, Except.pure, eq_comm]
  | cons a l ih =>
      simp only [List.mapM_cons, bind_eq_ok, List.forall_mem_cons, List.map_cons, hf, ih, pure,
        Except.pure, Except.ok.injEq]
      constructor
      · rintro ⟨b, ⟨ha, rfl⟩, bs', ⟨hl, rfl⟩, rfl⟩
        exact ⟨⟨ha, hl⟩, rfl⟩
      · rintro ⟨⟨ha, hl⟩, rfl⟩
        exact ⟨g a, ⟨ha, rfl⟩, l.map g, ⟨hl, rfl⟩, rfl⟩

/-! ### Loops -/

/-- The rounds of a loop meet a condition, each in the state it starts from, up to the round that stops the
loop. -/
def RoundsMeet {γ : Type} (round : γ → EStateM ε σ α) (P : γ → σ → Prop) : List γ → σ → Prop
  | [], _ => True
  | x :: rest, s => P x s ∧ ∀ a s', (round x).run s = .ok a s' → RoundsMeet round P rest s'

/-- The exact loop rule, for a relation `R` that every round keeps within. Where a round stays within `same`
exactly under its condition, the loop does exactly if all its rounds meet theirs. -/
theorem wp_foldlM_iff {γ : Type} {round : γ → EStateM ε σ α} {P : γ → σ → Prop} {R same : σ → σ → Prop}
    (hrefl : ∀ s, R s s ∧ same s s)
    (htrans : ∀ s t u, R s t → R t u → R s u ∧ (same s u ↔ same s t ∧ same t u))
    (hround : ∀ x s, wp (round x) (fun _ s' => R s s' ∧ (same s s' ↔ P x s))
      (fun _ s' => R s s' ∧ (same s s' ↔ P x s)) s) (next : β → α → β) (l : List γ) :
    ∀ b s, wp (l.foldlM (fun b x => do
        let a ← round x
        pure (next b a)) b)
      (fun _ s' => R s s' ∧ (same s s' ↔ RoundsMeet round P l s))
      (fun _ s' => R s s' ∧ (same s s' ↔ RoundsMeet round P l s)) s := by
  induction l with
  | nil => exact fun b s => ⟨(hrefl s).1, iff_of_true (hrefl s).2 trivial⟩
  | cons x rest ih =>
      intro b s
      simp only [List.foldlM_cons, wp_bind, wp_pure]
      refine wp_mono (wp_and (hround x s) (wp_run_eq (round x) s)) (fun a s₁ h₁ => ?_) (fun e s₁ h₁ => ?_)
      · obtain ⟨⟨hR, hsame⟩, hrun⟩ := h₁
        have hmeets : RoundsMeet round P (x :: rest) s ↔ P x s ∧ RoundsMeet round P rest s₁ := by
          refine and_congr_right fun _ => ⟨fun h => h a s₁ hrun, fun h a' s' hrun' => ?_⟩
          obtain ⟨_, rfl⟩ := EStateM.Result.ok.inj (hrun.symm.trans hrun')
          exact h
        have hafter {s' : σ} (h : R s₁ s' ∧ (same s₁ s' ↔ RoundsMeet round P rest s₁)) :
            R s s' ∧ (same s s' ↔ RoundsMeet round P (x :: rest) s) := by
          obtain ⟨hR', hiff⟩ := htrans s s₁ s' hR h.1
          exact ⟨hR', by rw [hiff, hsame, h.2, hmeets]⟩
        exact wp_mono (ih (next b a) s₁) (fun _ _ => hafter) (fun _ _ => hafter)
      · obtain ⟨⟨hR, hsame⟩, hrun⟩ := h₁
        refine ⟨hR, hsame.trans ⟨fun h => ⟨h, fun a s' hrun' => ?_⟩, And.left⟩⟩
        rw [hrun] at hrun'
        cases hrun'

/-- The rule for a list computed element by element: `Rel` holds between an element and its result when
the result is there, and the later elements keep it. -/
theorem wp_mapM (f : α → EStateM ε σ β) (Inv : σ → Prop) (Rel : σ → α → β → Prop) (E : ε → σ → Prop)
    (l : List α)
    (hstep : ∀ a ∈ l, ∀ s, Inv s → wp (f a) (fun b s' => Inv s' ∧ Rel s' a b ∧
      ∀ a' b', Rel s a' b' → Rel s' a' b') E s) :
    ∀ s, Inv s → wp (l.mapM f) (fun bs s' => Inv s' ∧ List.Forall₂ (Rel s') l bs ∧
      ∀ a' b', Rel s a' b' → Rel s' a' b') E s := by
  induction l with
  | nil =>
      intro s hinv
      exact ⟨hinv, .nil, fun _ _ h => h⟩
  | cons a l ih =>
      intro s hinv
      rw [List.mapM_cons, wp_bind]
      refine wp_mono (hstep a List.mem_cons_self s hinv) (fun b s₁ h₁ => ?_) (fun _ _ h => h)
      obtain ⟨hinv₁, hrel, hkept⟩ := h₁
      rw [wp_bind]
      refine wp_mono (ih (fun a' ha' => hstep a' (List.mem_cons_of_mem a ha')) s₁ hinv₁)
        (fun bs s₂ h₂ => ?_) (fun _ _ h => h)
      obtain ⟨hinv₂, hrest, hkept₂⟩ := h₂
      exact ⟨hinv₂, .cons (hkept₂ _ _ hrel) hrest, fun a' b' h => hkept₂ a' b' (hkept a' b' h)⟩

/-! ### What a computation leaves alone -/

/-- `x` does not change what `view` reads, however it ends. -/
def Leaves (view : σ → τ) (x : EStateM ε σ α) : Prop :=
  ∀ s, wp x (fun _ s' => view s' = view s) (fun _ s' => view s' = view s) s

theorem Leaves.pure {view : σ → τ} (a : α) : Leaves view (Pure.pure a : EStateM ε σ α) := fun _ => rfl

/-- From `s`, `x` ends with a value or an error, and never by a panic, with the view unchanged. -/
def Steady (view : σ → τ) (x : EStateM (Stop ε) σ α) (s : σ) : Prop :=
  wp x (fun _ s' => view s' = view s) (fun e s' => (∃ a, e = .err a) ∧ view s' = view s) s

end Effect
