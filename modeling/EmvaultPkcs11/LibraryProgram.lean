import EmvaultPkcs11.LibraryEffect

/-! Programs that talk to a device through calls, as the tree of calls they make. The tree is run in
two ways: alone, one call after the other (`run`), and, in another module, call by call in competition
with other programs on the same device. What a call does is a parameter (`exec`), so a result about a
program is a result about the calls it makes and the order it makes them in. -/

open Effect

namespace Program

/-- The calls a device offers and what each of them answers. -/
structure Interface where
  Call : Type
  Reply : Call → Type

end Program

/-- A program over an interface: done, stopped, or waiting for the answer to a call. -/
inductive Program (I : Program.Interface) (ε α : Type) : Type where
  | done (a : α)
  | stop (e : ε)
  | call (c : I.Call) (next : I.Reply c → Program I ε α)

namespace Program

variable {I : Interface} {ε ε' σ α β : Type}

def bind : Program I ε α → (α → Program I ε β) → Program I ε β
  | .done a, f => f a
  | .stop e, _ => .stop e
  | .call c next, f => .call c fun reply => (next reply).bind f

instance : Monad (Program I ε) where
  pure := .done
  bind := bind

instance : MonadExceptOf ε (Program I ε) where
  throw := .stop
  tryCatch p handler := go p handler
where
  go {α : Type} : Program I ε α → (ε → Program I ε α) → Program I ε α
    | .done a, _ => .done a
    | .stop e, handler => handler e
    | .call c next, handler => .call c fun reply => go (next reply) handler

@[simp] theorem pure_eq (a : α) : (pure a : Program I ε α) = .done a := rfl

@[simp] theorem throw_eq (e : ε) : (throw e : Program I ε α) = .stop e := rfl

@[simp] theorem done_bind (a : α) (f : α → Program I ε β) : (.done a >>= f) = f a := rfl

@[simp] theorem stop_bind (e : ε) (f : α → Program I ε β) : (.stop e >>= f) = .stop e := rfl

@[simp] theorem call_bind (c : I.Call) (next : I.Reply c → Program I ε α) (f : α → Program I ε β) :
    (.call c next >>= f) = .call c fun reply => next reply >>= f := rfl

theorem bind_assoc' {γ : Type} (p : Program I ε α) (f : α → Program I ε β) (g : β → Program I ε γ) :
    (p >>= f >>= g) = p >>= fun a => f a >>= g := by
  induction p with
  | done a => rfl
  | stop e => rfl
  | call c next ih =>
      simp only [call_bind]
      congr 1
      funext reply
      exact ih reply

/-- The same calls, with the error a program stops with converted by `f`. -/
def mapError (f : ε → ε') : Program I ε α → Program I ε' α
  | .done a => .done a
  | .stop e => .stop (f e)
  | .call c next => .call c fun reply => (next reply).mapError f

/-- Stop with the error of an `Except` value, or go on with its result. -/
def ofExcept : Except ε α → Program I ε α
  | .ok a => .done a
  | .error e => .stop e

/-! ### The calls of a program -/

/-- The program can make the call, for some answers to the calls before. -/
def Makes (c : I.Call) : Program I ε α → Prop
  | .done _ => False
  | .stop _ => False
  | .call c' next => c' = c ∨ ∃ reply, Makes c (next reply)

@[simp] theorem not_makes_done (c : I.Call) (a : α) : ¬Makes c (.done a : Program I ε α) := id

@[simp] theorem not_makes_stop (c : I.Call) (e : ε) : ¬Makes c (.stop e : Program I ε α) := id

@[simp] theorem makes_call (c c' : I.Call) (next : I.Reply c' → Program I ε α) :
    Makes c (.call c' next) ↔ c' = c ∨ ∃ reply, Makes c (next reply) := Iff.rfl

/-- A call of two programs in sequence is a call of one of them. -/
theorem makes_of_bind {c : I.Call} {p : Program I ε α} {f : α → Program I ε β} (h : Makes c (p >>= f)) :
    Makes c p ∨ ∃ a, Makes c (f a) := by
  induction p with
  | done a => exact Or.inr ⟨a, h⟩
  | stop e => exact h.elim
  | call c' next ih =>
      rcases h with rfl | ⟨reply, hreply⟩
      · exact Or.inl (Or.inl rfl)
      · exact (ih reply hreply).imp_left fun hmakes => Or.inr ⟨reply, hmakes⟩

/-! ### Running a program alone -/

variable (exec : (c : I.Call) → σ → I.Reply c × σ)

/-- Run a program against a device whose calls are answered by `exec`. -/
def run : Program I ε α → EStateM ε σ α
  | .done a => fun s => .ok a s
  | .stop e => fun s => .error e s
  | .call c next => fun s => run (next (exec c s).1) (exec c s).2

@[simp] theorem wp_run_done (a : α) (Q : α → σ → Prop) (E : ε → σ → Prop) (s : σ) :
    wp (run exec (.done a : Program I ε α)) Q E s ↔ Q a s := Iff.rfl

@[simp] theorem wp_run_stop (e : ε) (Q : α → σ → Prop) (E : ε → σ → Prop) (s : σ) :
    wp (run exec (.stop e : Program I ε α)) Q E s ↔ E e s := Iff.rfl

@[simp] theorem wp_run_call (c : I.Call) (next : I.Reply c → Program I ε α) (Q : α → σ → Prop)
    (E : ε → σ → Prop) (s : σ) :
    wp (run exec (.call c next)) Q E s ↔ wp (run exec (next (exec c s).1)) Q E (exec c s).2 := Iff.rfl

/-- Sequencing of programs is sequencing of their runs. -/
theorem run_bind (p : Program I ε α) (f : α → Program I ε β) :
    run exec (p >>= f) = run exec p >>= fun a => run exec (f a) := by
  induction p with
  | done a => rfl
  | stop e => rfl
  | call c next ih =>
      funext s
      exact congrFun (ih (exec c s).1) (exec c s).2

@[simp] theorem wp_run_bind (p : Program I ε α) (f : α → Program I ε β) (Q : β → σ → Prop)
    (E : ε → σ → Prop) (s : σ) :
    wp (run exec (p >>= f)) Q E s ↔
      wp (run exec p) (fun a s' => wp (run exec (f a)) Q E s') E s := by
  rw [run_bind, wp_bind]

@[simp] theorem wp_run_mapError (f : ε → ε') (p : Program I ε α) (Q : α → σ → Prop)
    (E : ε' → σ → Prop) :
    ∀ s, wp (run exec (p.mapError f)) Q E s ↔ wp (run exec p) Q (fun e => E (f e)) s := by
  induction p with
  | done a => exact fun s => Iff.rfl
  | stop e => exact fun s => Iff.rfl
  | call c next ih => exact fun s => ih (exec c s).1 (exec c s).2

@[simp] theorem wp_run_ofExcept (x : Except ε α) (Q : α → σ → Prop) (E : ε → σ → Prop) (s : σ) :
    wp (run exec (ofExcept x : Program I ε α)) Q E s ↔
      (∀ a, x = .ok a → Q a s) ∧ (∀ e, x = .error e → E e s) := by
  cases x <;> simp [ofExcept]

/-- A relation between device states that is reflexive and transitive and holds across every call
holds across every run. -/
theorem wp_run_rel {R : σ → σ → Prop} (hrefl : ∀ s, R s s)
    (htrans : ∀ s t u, R s t → R t u → R s u) (hcall : ∀ c s, R s (exec c s).2)
    (p : Program I ε α) :
    ∀ s, wp (run exec p) (fun _ s' => R s s') (fun _ s' => R s s') s := by
  induction p with
  | done a => exact fun s => hrefl s
  | stop e => exact fun s => hrefl s
  | call c next ih =>
      intro s
      exact wp_mono (ih (exec c s).1 (exec c s).2)
        (fun _ s' h => htrans _ _ s' (hcall c s) h) (fun _ s' h => htrans _ _ s' (hcall c s) h)

end Program
