import EmvaultPkcs11.LibraryProgram

/-! Rules on the calls a program makes. A rule says which calls are allowed in which states; a program minds it
from a state if every call of its run does, and then what allowed calls keep holds at the end of the run. -/

open Effect

namespace Program

variable {I : Interface} {ε ε' σ α β : Type} (exec : (c : I.Call) → σ → I.Reply c × σ)
  (allowed : (c : I.Call) → σ → Prop)

/-- From `s`, every call of the program is allowed in the state it is made in, and a normal end is in `Q`. -/
def Minds (Q : α → σ → Prop) : Program I ε α → σ → Prop
  | .done a, s => Q a s
  | .stop _, _ => True
  | .call c next, s => allowed c s ∧ Minds Q (next (exec c s).1) (exec c s).2

section

variable {exec} {allowed} {Q Q' : α → σ → Prop} {s : σ}

@[simp] theorem minds_done (a : α) : Minds exec allowed Q (.done a : Program I ε α) s ↔ Q a s := Iff.rfl

@[simp] theorem minds_stop (e : ε) : Minds exec allowed Q (.stop e : Program I ε α) s ↔ True := Iff.rfl

@[simp] theorem minds_call (c : I.Call) (next : I.Reply c → Program I ε α) :
    Minds exec allowed Q (.call c next) s ↔
      allowed c s ∧ Minds exec allowed Q (next (exec c s).1) (exec c s).2 := Iff.rfl

/-- Sequencing: what follows minds the rule from where the first part ends. -/
@[simp] theorem minds_bind (p : Program I ε α) (f : α → Program I ε β) (Q : β → σ → Prop) :
    ∀ s, Minds exec allowed Q (p >>= f) s ↔ Minds exec allowed (fun a s' => Minds exec allowed Q (f a) s') p s := by
  induction p with
  | done a => exact fun s => Iff.rfl
  | stop e => exact fun s => Iff.rfl
  | call c next ih => exact fun s => and_congr_right fun _ => ih (exec c s).1 (exec c s).2

@[simp] theorem minds_mapError (f : ε → ε') (p : Program I ε α) :
    ∀ s, Minds exec allowed Q (p.mapError f) s ↔ Minds exec allowed Q p s := by
  induction p with
  | done a => exact fun s => Iff.rfl
  | stop e => exact fun s => Iff.rfl
  | call c next ih => exact fun s => and_congr_right fun _ => ih (exec c s).1 (exec c s).2

@[simp] theorem minds_ofExcept (x : Except ε α) :
    Minds exec allowed Q (ofExcept x : Program I ε α) s ↔ ∀ a, x = .ok a → Q a s := by
  cases x <;> simp [ofExcept]

theorem Minds.mono {p : Program I ε α} (h : Minds exec allowed Q p s) (hQ : ∀ a s', Q a s' → Q' a s') :
    Minds exec allowed Q' p s := by
  induction p generalizing s with
  | done a => exact hQ a s h
  | stop e => trivial
  | call c next ih => exact ⟨h.1, ih _ h.2⟩

/-- A rule that allows more is minded too. -/
theorem Minds.weaken {p : Program I ε α} {allowed' : (c : I.Call) → σ → Prop} (h : Minds exec allowed Q p s)
    (hallowed : ∀ c s, allowed c s → allowed' c s) : Minds exec allowed' Q p s := by
  induction p generalizing s with
  | done a => exact h
  | stop e => trivial
  | call c next ih => exact ⟨hallowed c s h.1, ih _ h.2⟩

/-- What the run of a program says of its end can be added. -/
theorem Minds.and_wp {p : Program I ε α} {E : ε → σ → Prop} (h : Minds exec allowed Q p s)
    (hwp : wp (run exec p) Q' E s) : Minds exec allowed (fun a s' => Q a s' ∧ Q' a s') p s := by
  induction p generalizing s with
  | done a => exact ⟨h, hwp⟩
  | stop e => trivial
  | call c next ih => exact ⟨h.1, ih _ h.2 hwp⟩

/-- The run of a program that minds the rule keeps what every allowed call keeps. -/
theorem Minds.run {p : Program I ε α} {Inv : σ → Prop} (h : Minds exec allowed Q p s)
    (hkeeps : ∀ c s, allowed c s → Inv s → Inv (exec c s).2) (hinv : Inv s) :
    wp (run exec p) (fun a s' => Inv s' ∧ Q a s') (fun _ s' => Inv s') s := by
  induction p generalizing s with
  | done a => exact ⟨hinv, h⟩
  | stop e => exact hinv
  | call c next ih => exact ih _ h.2 (hkeeps c s h.1 hinv)

end

end Program

namespace Effect

variable {ε σ α β : Type}

/-- However `x` ends, it keeps the invariant. -/
def Maintains (Inv : σ → Prop) (x : EStateM ε σ α) : Prop :=
  ∀ s, Inv s → wp x (fun _ s' => Inv s') (fun _ s' => Inv s') s

namespace Maintains

variable {Inv : σ → Prop}

theorem pure (a : α) : Maintains Inv (Pure.pure a : EStateM ε σ α) := fun _ h => h

theorem bind {x : EStateM ε σ α} {f : α → EStateM ε σ β} (hx : Maintains Inv x)
    (hf : ∀ a, Maintains Inv (f a)) : Maintains Inv (x >>= f) := by
  intro s h
  rw [wp_bind]
  exact wp_mono (hx s h) (fun a s' h' => hf a s' h') fun _ _ h' => h'

theorem orErr (r : Except ε α) : Maintains Inv (Effect.orErr r : EStateM (Stop ε) σ α) := by
  cases r with
  | ok a => exact pure a
  | error e => exact fun _ h => h

/-- A program whose calls mind a rule keeps what the calls that are allowed keep. -/
theorem run {I : Program.Interface} {exec : (c : I.Call) → σ → I.Reply c × σ} {allowed : (c : I.Call) → σ → Prop}
    {p : Program I ε α} (h : ∀ s, Inv s → Program.Minds exec allowed (fun _ _ => True) p s)
    (hkeeps : ∀ c s, allowed c s → Inv s → Inv (exec c s).2) : Maintains Inv (Program.run exec p) := by
  intro s hs
  exact wp_mono ((h s hs).run hkeeps hs) (fun _ _ h' => h'.1) fun _ _ h' => h'

end Maintains

end Effect
