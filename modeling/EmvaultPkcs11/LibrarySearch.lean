import Mathlib

/-! Searches through a list that end at the first element that decides them. What such a search comes to can
depend on the order of the list; it does not exactly if all elements that decide it decide it alike. The
second part is the search for a pair, by two loops, the third a pass that ends at the first error. -/

namespace Search

variable {α β : Type}

/-! ### Reordering -/

/-- An element that decides the search decides it if it comes first. -/
theorem exists_perm_findSome? {verdict : α → Option β} {l : List α} {a : α} (ha : a ∈ l) {x : β}
    (hx : verdict a = some x) : ∃ l' : List α, l'.Perm l ∧ l'.findSome? verdict = some x := by
  obtain ⟨before, after, rfl⟩ := List.append_of_mem ha
  refine ⟨a :: (before ++ after), List.perm_middle.symm, ?_⟩
  rw [List.findSome?_cons, hx]

/-- A search whose deciding elements agree comes to what any of them decides. -/
theorem findSome?_eq_some_iff_of_agree {verdict : α → Option β} {l : List α}
    (hagree : ∀ a ∈ l, ∀ b ∈ l, ∀ x y, verdict a = some x → verdict b = some y → x = y) {x : β} :
    l.findSome? verdict = some x ↔ ∃ a ∈ l, verdict a = some x := by
  constructor
  · exact List.exists_of_findSome?_eq_some
  · rintro ⟨a, ha, hx⟩
    cases hfound : l.findSome? verdict with
    | none =>
        have hnone := List.findSome?_eq_none_iff.mp hfound a ha
        rw [hx] at hnone
        cases hnone
    | some y =>
        obtain ⟨b, hb, hy⟩ := List.exists_of_findSome?_eq_some hfound
        rw [hagree b hb a ha y x hy hx]

/-- A search whose deciding elements agree comes to the same in every order. -/
theorem findSome?_eq_of_perm {verdict : α → Option β} {l l' : List α} (hperm : l'.Perm l)
    (hagree : ∀ a ∈ l, ∀ b ∈ l, ∀ x y, verdict a = some x → verdict b = some y → x = y) :
    l'.findSome? verdict = l.findSome? verdict := by
  have hagree' : ∀ a ∈ l', ∀ b ∈ l', ∀ x y, verdict a = some x → verdict b = some y → x = y :=
    fun a ha b hb => hagree a (hperm.mem_iff.mp ha) b (hperm.mem_iff.mp hb)
  ext x
  rw [findSome?_eq_some_iff_of_agree hagree', findSome?_eq_some_iff_of_agree hagree]
  simp only [hperm.mem_iff]

/-- The order of the list does not matter exactly if all elements that decide the search agree. -/
theorem getD_findSome?_stable_iff (verdict : α → Option β) (default : β) (l : List α) :
    (∀ l' : List α, l'.Perm l →
      (l'.findSome? verdict).getD default = (l.findSome? verdict).getD default) ↔
      ∀ a ∈ l, ∀ b ∈ l, ∀ x y, verdict a = some x → verdict b = some y → x = y := by
  constructor
  · intro hstable
    have hdecides {a : α} (ha : a ∈ l) {x : β} (hx : verdict a = some x) :
        (l.findSome? verdict).getD default = x := by
      obtain ⟨l', hperm, hfound⟩ := exists_perm_findSome? ha hx
      rw [← hstable l' hperm, hfound, Option.getD_some]
    intro a ha b hb x y hx hy
    rw [← hdecides ha hx, ← hdecides hb hy]
  · intro hagree l' hperm
    rw [findSome?_eq_of_perm hperm hagree]

/-! ### Pairs -/

/-- The first pair of positions below `n` that passes the test, by a loop over the smaller position and a loop
over the greater one. -/
def firstPair (n : Nat) (test : Nat → Nat → Bool) : Option (Nat × Nat) :=
  (List.range n).findSome? fun i => ((List.range' (i + 1) (n - (i + 1))).find? (test i)).map fun j => (i, j)

/-- The pair is the first in lexicographic order that is related. -/
structure IsFirstPair (n : Nat) (R : Nat → Nat → Prop) (i j : Nat) : Prop where
  lt : i < j
  bound : j < n
  related : R i j
  first : ∀ i' j', i' < j' → j' < n → R i' j' → i < i' ∨ i = i' ∧ j ≤ j'

variable {n : Nat} {test : Nat → Nat → Bool} {i j i' j' : Nat}

theorem IsFirstPair.unique {R : Nat → Nat → Prop} (h : IsFirstPair n R i j) (h' : IsFirstPair n R i' j') :
    i = i' ∧ j = j' := by
  have hle := h.first i' j' h'.lt h'.bound h'.related
  have hge := h'.first i j h.lt h.bound h.related
  omega

theorem IsFirstPair.congr {R S : Nat → Nat → Prop} (hRS : ∀ i j, i < j → j < n → (R i j ↔ S i j)) :
    IsFirstPair n R i j ↔ IsFirstPair n S i j := by
  constructor
  · intro h
    exact ⟨h.lt, h.bound, (hRS i j h.lt h.bound).mp h.related,
      fun i' j' hlt hbound hrelated => h.first i' j' hlt hbound ((hRS i' j' hlt hbound).mpr hrelated)⟩
  · intro h
    exact ⟨h.lt, h.bound, (hRS i j h.lt h.bound).mpr h.related,
      fun i' j' hlt hbound hrelated => h.first i' j' hlt hbound ((hRS i' j' hlt hbound).mp hrelated)⟩

theorem find?_row_eq_none_iff : (List.range' (i + 1) (n - (i + 1))).find? (test i) = none ↔
    ∀ j, i < j → j < n → test i j = false := by
  rw [List.find?_eq_none]
  simp only [List.mem_range'_1, Bool.not_eq_true]
  constructor
  · exact fun h j hij hj => h j (by omega)
  · exact fun h j hj => h j (by omega) (by omega)

theorem firstPair_eq_none_iff : firstPair n test = none ↔ ∀ i j, i < j → j < n → test i j = false := by
  rw [firstPair, List.findSome?_eq_none_iff]
  simp only [List.mem_range, Option.map_eq_none_iff, find?_row_eq_none_iff]
  exact ⟨fun h i j hij hj => h i (by omega) j hij hj, fun h i _ j hij hj => h i j hij hj⟩

theorem isFirstPair_of_firstPair (h : firstPair n test = some (i, j)) :
    IsFirstPair n (fun i j => test i j) i j := by
  obtain ⟨rows, row, rest, hrange, hfound, hrows⟩ := List.findSome?_eq_some_iff.mp h
  obtain ⟨column, hcolumn, hpair⟩ := Option.map_eq_some_iff.mp hfound
  obtain ⟨rfl, rfl⟩ := Prod.mk.inj hpair
  obtain ⟨htest, hmem, hfirst⟩ := List.find?_range'_eq_some.mp hcolumn
  -- the rows before this one are the positions before it
  rw [List.range_eq_range', List.range'_eq_append_iff] at hrange
  obtain ⟨k, -, rfl, hrest⟩ := hrange
  obtain ⟨hrow, -, -⟩ := List.range'_eq_cons_iff.mp hrest.symm
  have hbefore (i' : Nat) (hi : i' < row) : i' ∈ List.range' 0 k := List.mem_range'_1.mpr (by omega)
  rw [List.mem_range'_1] at hmem
  refine ⟨by omega, by omega, htest, fun i' j' hlt hbound hrelated => ?_⟩
  by_contra hearlier
  push Not at hearlier
  by_cases hi : i' < row
  · have hnone := Option.map_eq_none_iff.mp (hrows i' (hbefore i' hi))
    rw [find?_row_eq_none_iff.mp hnone j' hlt hbound] at hrelated
    cases hrelated
  · obtain rfl : row = i' := Nat.le_antisymm (Nat.le_of_not_lt hi) (hearlier.1)
    have hfalse := hfirst j' (by omega) (hearlier.2 rfl)
    rw [hrelated] at hfalse
    cases hfalse

theorem firstPair_eq_some_iff : firstPair n test = some (i, j) ↔ IsFirstPair n (fun i j => test i j) i j := by
  constructor
  · exact isFirstPair_of_firstPair
  · intro hfirst
    cases hfound : firstPair n test with
    | none =>
        have hnone := firstPair_eq_none_iff.mp hfound i j hfirst.lt hfirst.bound
        rw [hfirst.related] at hnone
        cases hnone
    | some pair =>
        obtain ⟨rfl, rfl⟩ := hfirst.unique (isFirstPair_of_firstPair hfound)
        rfl

open Classical in
/-- If some pair is related, one is the first. -/
theorem exists_isFirstPair {R : Nat → Nat → Prop} (hlt : i < j) (hbound : j < n) (hrelated : R i j) :
    ∃ i' j', IsFirstPair n R i' j' := by
  cases hfound : firstPair n fun i j => decide (R i j) with
  | none =>
      have hnone := firstPair_eq_none_iff.mp hfound i j hlt hbound
      exact absurd hrelated (of_decide_eq_false hnone)
  | some pair =>
      have hfirst := firstPair_eq_some_iff.mp (hfound.trans (congrArg some (Prod.mk.eta (p := pair)).symm))
      simp only [decide_eq_true_eq] at hfirst
      exact ⟨pair.1, pair.2, hfirst⟩

/-- No pair is related exactly if none is the first. -/
theorem forall_not_iff {R : Nat → Nat → Prop} :
    (∀ i j, i < j → j < n → ¬R i j) ↔ ∀ i j, ¬IsFirstPair n R i j := by
  constructor
  · exact fun hnone i j hfirst => hnone i j hfirst.lt hfirst.bound hfirst.related
  · intro hnone i j hlt hbound hrelated
    obtain ⟨i', j', hfirst⟩ := exists_isFirstPair hlt hbound hrelated
    exact hnone i' j' hfirst

/-- Pairs of a second relation do not disturb the first pair of a relation exactly if they all come after it. -/
theorem isFirstPair_or_iff {R S : Nat → Nat → Prop} (hdisjoint : ∀ i j, S i j → ¬R i j) :
    (∀ i j, IsFirstPair n (fun i j => R i j ∨ S i j) i j ↔ IsFirstPair n R i j) ↔
      ∀ i j, i < j → j < n → S i j → ∃ i' j', IsFirstPair n R i' j' ∧ (i' < i ∨ i' = i ∧ j' < j) := by
  constructor
  · intro hfirst i j hlt hbound hS
    obtain ⟨i', j', hpair⟩ := exists_isFirstPair (R := fun i j => R i j ∨ S i j) hlt hbound (Or.inr hS)
    have hR := (hfirst i' j').mp hpair
    refine ⟨i', j', hR, ?_⟩
    have hle := hpair.first i j hlt hbound (Or.inr hS)
    have hne : ¬(i' = i ∧ j' = j) := by
      rintro ⟨rfl, rfl⟩
      exact hdisjoint i' j' hS hR.related
    omega
  · intro hafter i j
    constructor
    · intro h
      refine ⟨h.lt, h.bound, ?_, fun i' j' hlt hbound hR => h.first i' j' hlt hbound (Or.inl hR)⟩
      rcases h.related with hR | hS
      · exact hR
      · obtain ⟨i', j', hR, hbefore⟩ := hafter i j h.lt h.bound hS
        have hle := h.first i' j' hR.lt hR.bound (Or.inl hR.related)
        omega
    · intro h
      refine ⟨h.lt, h.bound, Or.inl h.related, fun i' j' hlt hbound hrelated => ?_⟩
      rcases hrelated with hR | hS
      · exact h.first i' j' hlt hbound hR
      · obtain ⟨i'', j'', hR, hbefore⟩ := hafter i' j' hlt hbound hS
        obtain ⟨rfl, rfl⟩ := h.unique hR
        omega

/-! ### Passes -/

section

variable {ε : Type} {f : α → Except ε β} {l : List α}

/-- A pass succeeds with the results of the elements in their order. -/
theorem mapM_eq_ok_iff {bs : List β} : l.mapM f = .ok bs ↔ List.Forall₂ (fun a b => f a = .ok b) l bs := by
  induction l generalizing bs with
  | nil => simp [pure, Except.pure, eq_comm]
  | cons a l ih =>
      rw [List.mapM_cons, List.forall₂_cons_left_iff]
      simp only [← ih]
      cases f a with
      | error e => simp [bind, Except.bind]
      | ok b => cases l.mapM f <;> simp [bind, Except.bind, pure, Except.pure, eq_comm]

/-- A pass fails with the error of the first element that has one. -/
theorem mapM_eq_error_iff {e : ε} : l.mapM f = .error e ↔
    ∃ before a after, l = before ++ a :: after ∧ (∀ b ∈ before, ∃ c, f b = .ok c) ∧ f a = .error e := by
  induction l with
  | nil => simp [pure, Except.pure]
  | cons a l ih =>
      rw [List.mapM_cons]
      cases ha : f a with
      | error e' =>
          constructor
          · rintro ⟨⟩
            exact ⟨[], a, l, rfl, nofun, ha⟩
          · rintro ⟨before, a', after, heq, hbefore, ha'⟩
            cases before with
            | nil =>
                obtain ⟨rfl, -⟩ := List.cons.inj heq
                cases ha.symm.trans ha'
                rfl
            | cons b before =>
                obtain ⟨rfl, -⟩ := List.cons.inj heq
                obtain ⟨c, hc⟩ := hbefore a List.mem_cons_self
                cases ha.symm.trans hc
      | ok c =>
          have htail : (do let b ← Except.ok c; let bs ← l.mapM f; pure (b :: bs)) = .error e ↔
              l.mapM f = .error e := by
            cases l.mapM f <;> simp [bind, Except.bind, pure, Except.pure]
          rw [htail, ih]
          constructor
          · rintro ⟨before, a', after, rfl, hbefore, ha'⟩
            exact ⟨a :: before, a', after, rfl, List.forall_mem_cons.mpr ⟨⟨c, ha⟩, hbefore⟩, ha'⟩
          · rintro ⟨before, a', after, heq, hbefore, ha'⟩
            cases before with
            | nil =>
                obtain ⟨rfl, -⟩ := List.cons.inj heq
                cases ha.symm.trans ha'
            | cons b before =>
                obtain ⟨rfl, rfl⟩ := List.cons.inj heq
                exact ⟨before, a', after, rfl, (List.forall_mem_cons.mp hbefore).2, ha'⟩

end

section

variable {ε : Type} {f : Nat → Except ε β}

theorem mapM_range_eq_ok_iff {bs : List β} : (List.range n).mapM f = .ok bs ↔
    bs.length = n ∧ ∀ i < n, ∃ b, bs[i]? = some b ∧ f i = .ok b := by
  rw [mapM_eq_ok_iff, List.forall₂_iff_get]
  simp only [List.length_range, List.get_eq_getElem, List.getElem_range]
  constructor
  · rintro ⟨rfl, h⟩
    exact ⟨rfl, fun i hi => ⟨bs[i], List.getElem?_eq_getElem hi, h i hi hi⟩⟩
  · rintro ⟨rfl, h⟩
    refine ⟨rfl, fun i hi _ => ?_⟩
    obtain ⟨b, hb, hfi⟩ := h i hi
    rw [List.getElem?_eq_getElem hi, Option.some.injEq] at hb
    rw [hfi, hb]

theorem mapM_range_eq_error_iff {e : ε} : (List.range n).mapM f = .error e ↔
    ∃ i < n, f i = .error e ∧ ∀ j < i, ∃ b, f j = .ok b := by
  rw [mapM_eq_error_iff]
  constructor
  · rintro ⟨before, i, after, heq, hbefore, hi⟩
    rw [List.range_eq_range', List.range'_eq_append_iff] at heq
    obtain ⟨k, -, rfl, hrest⟩ := heq
    obtain ⟨hki, hpos, -⟩ := List.range'_eq_cons_iff.mp hrest.symm
    exact ⟨i, by omega, hi, fun j hj => hbefore j (List.mem_range'_1.mpr (by omega))⟩
  · rintro ⟨i, hi, hfi, hbefore⟩
    refine ⟨List.range i, i, List.range' (i + 1) (n - (i + 1)), ?_, ?_, hfi⟩
    · have hsplit : n = i + (n - (i + 1) + 1) := by omega
      nth_rewrite 1 [hsplit]
      rw [List.range_add, ← List.range'_eq_map_range, List.range'_succ]
    · exact fun j hj => hbefore j (List.mem_range.mp hj)

end

end Search
