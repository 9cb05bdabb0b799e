import EmvaultPkcs11.LibraryKeyTree

/-! The public side of a tree of keys. Whoever has a view of a key, and not the key, can take some steps from it,
each to the view of a child or to nothing. If single steps are right, so are whole paths. -/

namespace KeyTree

variable {K S V : Type}

/-- Follow a path from a view; a step may be refused. -/
def follow (step : V → S → Option V) (start : V) (path : List S) : Option V := path.foldlM step start

@[simp] theorem follow_nil (step : V → S → Option V) (start : V) : follow step start [] = some start := rfl

theorem follow_cons (step : V → S → Option V) (start : V) (s : S) (path : List S) :
    follow step start (s :: path) = (step start s).bind fun next => follow step next path := by
  rw [follow, List.foldlM_cons]
  rfl

/-- A step that is not refused leads from the view of a key to the view of its child. -/
def Shadows (view : K → V) (child : K → S → K) (step : V → S → Option V) : Prop :=
  ∀ key s v, step (view key) s = some v → v = view (child key s)

/-- Then a path that is followed leads to the view of the key at it. -/
theorem Shadows.follow {view : K → V} {child : K → S → K} {step : V → S → Option V}
    (h : Shadows view child step) (path : List S) : ∀ {key : K} {v : V},
    KeyTree.follow step (view key) path = some v → v = view (descend child key path) := by
  induction path with
  | nil => exact fun hv => (Option.some.inj hv).symm
  | cons s path ih =>
      intro key v hv
      rw [follow_cons] at hv
      obtain ⟨next, hnext, hv⟩ := Option.bind_eq_some_iff.mp hv
      obtain rfl := h key s next hnext
      rw [descend_cons]
      exact ih hv

/-- A change of views that every step lets through is let through by every path. -/
theorem follow_map {step : V → S → Option V} {f : V → V} (hstep : ∀ v s, step (f v) s = (step v s).map f)
    (path : List S) : ∀ start, follow step (f start) path = (follow step start path).map f := by
  induction path with
  | nil => exact fun start => rfl
  | cons s path ih =>
      intro start
      rw [follow_cons, follow_cons, hstep]
      cases step start s with
      | none => rfl
      | some next => exact ih next

end KeyTree
