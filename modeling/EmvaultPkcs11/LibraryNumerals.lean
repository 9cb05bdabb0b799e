import Mathlib

/-! Decimal numerals inside a text. A numeral ends where the digits end, so a text that is put together from
fixed parts and numerals determines the numbers in it. -/

namespace Numeral

theorem toList_toString (n : Nat) : (toString n).toList = Nat.toDigits 10 n := by
  rw [Nat.toString_eq_repr, Nat.toList_repr]

theorem isDigit_of_mem {n : Nat} {c : Char} (hc : c ∈ (toString n).toList) : c.isDigit := by
  rw [toList_toString] at hc
  exact Nat.isDigit_of_mem_toDigits (by decide) (by decide) hc

theorem toList_ne_nil (n : Nat) : (toString n).toList ≠ [] := by
  rw [toList_toString]
  exact Nat.toDigits_ne_nil

/-- The number is the value of its digits. -/
theorem ofDigitChars_toString (n : Nat) : Nat.ofDigitChars 10 (toString n).toList 0 = n := by
  rw [toList_toString, Nat.ofDigitChars_ten_toDigits]

theorem toList_injective {a b : Nat} (h : (toString a).toList = (toString b).toList) : a = b := by
  rw [← ofDigitChars_toString a, h, ofDigitChars_toString]

/-- The text goes on with something that is not a digit, or ends. -/
def Ends (rest : List Char) : Prop := ∀ c ∈ rest.head?, c.isDigit = false

theorem takeWhile_isDigit (n : Nat) {rest : List Char} (hrest : Ends rest) :
    ((toString n).toList ++ rest).takeWhile Char.isDigit = (toString n).toList := by
  rw [List.takeWhile_append_of_pos fun c hc => isDigit_of_mem hc]
  cases rest with
  | nil => rw [List.takeWhile_nil, List.append_nil]
  | cons c rest => rw [List.takeWhile_cons_of_neg (by simp [hrest c rfl]), List.append_nil]

/-- A text that begins with a numeral determines the number and the rest. -/
theorem append_inj {a b : Nat} {s t : List Char} (hs : Ends s) (ht : Ends t)
    (h : (toString a).toList ++ s = (toString b).toList ++ t) : a = b ∧ s = t := by
  have hdigits : (toString a).toList = (toString b).toList := by
    rw [← takeWhile_isDigit a hs, h, takeWhile_isDigit b ht]
  refine ⟨toList_injective hdigits, ?_⟩
  rw [hdigits] at h
  exact List.append_cancel_left h

end Numeral
