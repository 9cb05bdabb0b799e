import Mathlib

/-! Hierarchical keys: a key has children named by steps, so a path from a root names a key. A tree is
told apart by a view (the public key of a key, say) when different paths from its root have different
views. -/

namespace KeyTree

variable {K S V : Type}

/-- The key at a path below a key. -/
def descend (child : K → S → K) (key : K) (path : List S) : K := path.foldl child key

@[simp] theorem descend_nil (child : K → S → K) (key : K) : descend child key [] = key := rfl

@[simp] theorem descend_cons (child : K → S → K) (key : K) (step : S) (path : List S) :
    descend child key (step :: path) = descend child (child key step) path := rfl

theorem descend_append (child : K → S → K) (key : K) (path rest : List S) :
    descend child key (path ++ rest) = descend child (descend child key path) rest :=
  List.foldl_append

/-- Different paths below `root` lead to keys with different views. -/
def SeparatedBy (view : K → V) (child : K → S → K) (root : K) : Prop :=
  ∀ path path', view (descend child root path) = view (descend child root path') → path = path'

/-- Dropping as many steps as a base path has, and going on from the key at the base path, leads to
the key at the whole path exactly when the whole path extends the base path. -/
theorem view_descend_drop_eq_iff {view : K → V} {child : K → S → K} {root : K}
    (hseparated : SeparatedBy view child root) (base path : List S) :
    view (descend child (descend child root base) (path.drop base.length)) =
      view (descend child root path) ↔ base <+: path := by
  rw [← descend_append, List.prefix_iff_eq_append]
  exact ⟨hseparated _ _, fun h => by rw [h]⟩

/-- The same of the keys themselves. -/
theorem descend_drop_eq_iff {view : K → V} {child : K → S → K} {root : K}
    (hseparated : SeparatedBy view child root) (base path : List S) :
    descend child (descend child root base) (path.drop base.length) = descend child root path ↔
      base <+: path := by
  refine ⟨fun h => (view_descend_drop_eq_iff hseparated base path).mp (congrArg view h), fun h => ?_⟩
  rw [← descend_append, List.prefix_iff_eq_append.mp h]

end KeyTree
