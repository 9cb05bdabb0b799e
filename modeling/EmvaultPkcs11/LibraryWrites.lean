import Mathlib

/-! Stores that are written slot by slot. After a list of writes a slot holds what the last write that hit
it put there, or what it held before. So writers that hit different slots can take their turns in any
order and as often as they like: what a slot holds depends only on who has had a turn. -/

namespace Writes

variable {σ ω ν ι : Type}

/-- What the last write that hits a slot puts there. `hit w` is what `w` puts there, if it hits it. -/
def last (hit : ω → Option ν) (ws : List ω) : Option ν := ws.reverse.findSome? hit

variable {hit : ω → Option ν}

@[simp] theorem last_nil : last hit [] = none := rfl

theorem last_append (ws ws' : List ω) : last hit (ws ++ ws') = (last hit ws').or (last hit ws) := by
  simp only [last, List.reverse_append, List.findSome?_append]

@[simp] theorem last_singleton (w : ω) : last hit [w] = hit w := by
  cases h : hit w <;> simp [last, h]

theorem last_cons (w : ω) (ws : List ω) : last hit (w :: ws) = (last hit ws).or (hit w) := by
  rw [← List.singleton_append, last_append, last_singleton]

theorem last_concat (ws : List ω) (w : ω) : last hit (ws ++ [w]) = (hit w).or (last hit ws) := by
  rw [last_append, last_singleton]

theorem last_eq_none_iff (ws : List ω) : last hit ws = none ↔ ∀ w ∈ ws, hit w = none := by
  simp only [last, List.findSome?_eq_none_iff, List.mem_reverse]

theorem last_isSome_iff (ws : List ω) : (last hit ws).isSome ↔ ∃ w ∈ ws, (hit w).isSome := by
  simp only [last, List.findSome?_isSome_iff, List.mem_reverse]

theorem exists_of_last_eq_some {ws : List ω} {v : ν} (h : last hit ws = some v) :
    ∃ w ∈ ws, hit w = some v := by
  obtain ⟨w, hw, hv⟩ := List.exists_of_findSome?_eq_some h
  exact ⟨w, List.mem_reverse.mp hw, hv⟩

/-- Reading a slot after a list of writes, in a store whose writes keep `Fits`. -/
theorem read_foldl (read : σ → Option ν) {Fits : σ → Prop} {write : σ → ω → σ}
    (hfits : ∀ s w, Fits s → Fits (write s w))
    (hread : ∀ s w, Fits s → read (write s w) = (hit w).or (read s)) (ws : List ω) :
    ∀ s, Fits s → read (ws.foldl write s) = (last hit ws).or (read s) := by
  induction ws with
  | nil =>
      intro s _
      simp
  | cons w ws ih =>
      intro s hs
      rw [List.foldl_cons, ih _ (hfits s w hs), hread s w hs, last_cons, Option.or_assoc]

/-! ### Writers -/

variable {writes : ι → List ω}

theorem last_flatMap (order : List ι) :
    last hit (order.flatMap writes) = order.reverse.findSome? fun i => last hit (writes i) := by
  induction order with
  | nil => rfl
  | cons i order ih =>
      rw [List.flatMap_cons, last_append, ih, List.reverse_cons, List.findSome?_append]
      simp

/-- A slot that one writer hits holds what that writer puts there last, whoever else has had a turn. -/
theorem last_flatMap_eq_some_iff {order : List ι}
    (hone : ∀ i ∈ order, ∀ j ∈ order, ∀ v v', last hit (writes i) = some v →
      last hit (writes j) = some v' → i = j) (v : ν) :
    last hit (order.flatMap writes) = some v ↔ ∃ i ∈ order, last hit (writes i) = some v := by
  rw [last_flatMap]
  constructor
  · intro h
    obtain ⟨i, hi, hv⟩ := List.exists_of_findSome?_eq_some h
    exact ⟨i, List.mem_reverse.mp hi, hv⟩
  · rintro ⟨i, hi, hv⟩
    cases hfound : order.reverse.findSome? fun i => last hit (writes i) with
    | none =>
        rw [List.findSome?_eq_none_iff] at hfound
        rw [hfound i (List.mem_reverse.mpr hi)] at hv
        cases hv
    | some v' =>
        obtain ⟨j, hj, hv'⟩ := List.exists_of_findSome?_eq_some hfound
        obtain rfl := hone i hi j (List.mem_reverse.mp hj) v v' hv hv'
        rw [← hv, hv']

/-- Turns of the same writers, in two orders. -/
theorem last_flatMap_congr {order order' : List ι} (hsame : ∀ i, i ∈ order' ↔ i ∈ order)
    (hone : ∀ i ∈ order, ∀ j ∈ order, ∀ v v', last hit (writes i) = some v →
      last hit (writes j) = some v' → i = j) :
    last hit (order'.flatMap writes) = last hit (order.flatMap writes) := by
  apply Option.ext
  intro v
  rw [last_flatMap_eq_some_iff hone, last_flatMap_eq_some_iff fun i hi j hj =>
    hone i ((hsame i).mp hi) j ((hsame j).mp hj)]
  simp only [hsame]

end Writes
