import EmvaultPkcs11.Backend

/-! The word a child index is sent in, and that reading it back gives the index: the four bytes of a
word in little-endian order, and the high bit for a hardened child. -/

namespace EmvaultPkcs11

/-- Reading a word from its bytes gives the word. -/
theorem fromLeBytes_toLeBytes (word : UInt32) : fromLeBytes (toLeBytes word) = some word := by
  simp only [toLeBytes, fromLeBytes, Option.some.injEq]
  apply UInt32.toBitVec_inj.mp
  ext i hi
  simp only [UInt32.toBitVec_or, UInt32.toBitVec_shiftLeft, UInt8.toBitVec_toUInt32,
    UInt32.toBitVec_toUInt8, UInt32.toBitVec_shiftRight, ← BitVec.getLsbD_eq_getElem]
  -- bit `i` comes from byte `i / 8`
  have h8 : 8 ≤ i → 8 + (i - 8) = i := by omega
  have h16 : 16 ≤ i → 16 + (i - 16) = i := by omega
  have h24 : 24 ≤ i → 24 + (i - 24) = i := by omega
  simp
  grind

/-! ### The high bit -/

theorem and_highBit {n : Nat} (hn : n < 2 ^ 31) : n &&& 2 ^ 31 = 0 := by
  rw [Nat.and_two_pow, Nat.testBit_lt_two_pow hn, Bool.toNat_false, Nat.zero_mul]

theorem or_highBit {n : Nat} (hn : n < 2 ^ 31) : n ||| 2 ^ 31 = 2 ^ 31 + n := by
  have h := Nat.two_pow_add_eq_or_of_lt hn 1
  rw [Nat.mul_one] at h
  rw [h, Nat.or_comm]

theorem toNat_indexWord_normal (index : Fin (2 ^ 31)) :
    (ChildNumber.normal index).indexWord.toNat = index.val := by
  have hlt := index.isLt
  simp only [ChildNumber.indexWord, UInt32.toNat_ofNat']
  omega

theorem toNat_indexWord_hardened (index : Fin (2 ^ 31)) :
    (ChildNumber.hardened index).indexWord.toNat = 2 ^ 31 + index.val := by
  have hlt := index.isLt
  have hmod : index.val % 2 ^ 32 = index.val := by omega
  simp only [ChildNumber.indexWord, UInt32.toNat_or, UInt32.toNat_ofNat', hmod]
  exact or_highBit hlt

/-- The child number read from a word is the one the word was made from. -/
theorem childNumberOf_indexWord (child : ChildNumber) :
    AttributeDerivation.childNumberOf child.indexWord = child := by
  cases child with
  | normal index =>
      have hword := toNat_indexWord_normal index
      have hbit : (ChildNumber.normal index).indexWord &&& 0x80000000 = 0 := by
        apply UInt32.toNat_inj.mp
        rw [UInt32.toNat_and, hword]
        exact and_highBit index.isLt
      simp only [AttributeDerivation.childNumberOf, hbit, ne_eq, not_true_eq_false, if_false, hword]
      exact congrArg _ (Fin.ext (Nat.mod_eq_of_lt index.isLt))
  | hardened index =>
      have hword := toNat_indexWord_hardened index
      have hbit : (ChildNumber.hardened index).indexWord &&& 0x80000000 ≠ 0 := by
        intro h
        have h' := congrArg UInt32.toNat h
        rw [UInt32.toNat_and, hword, ← or_highBit index.isLt, Nat.and_or_distrib_right] at h'
        change index.val &&& 2 ^ 31 ||| 2 ^ 31 &&& 2 ^ 31 = 0 at h'
        rw [and_highBit index.isLt, Nat.zero_or, Nat.and_self] at h'
        exact absurd h' (by decide)
      have hlow : ((ChildNumber.hardened index).indexWord &&& 0x7FFFFFFF).toNat = index.val := by
        rw [UInt32.toNat_and, hword]
        have h := Nat.and_two_pow_sub_one_eq_mod (2 ^ 31 + index.val) 31
        have hlt := index.isLt
        calc (2 ^ 31 + index.val) &&& UInt32.toNat 0x7FFFFFFF = (2 ^ 31 + index.val) % 2 ^ 31 := h
          _ = index.val := by omega
      simp only [AttributeDerivation.childNumberOf, hbit, ne_eq, not_false_eq_true, if_true, hlow]
      exact congrArg _ (Fin.ext (Nat.mod_eq_of_lt index.isLt))
end EmvaultPkcs11
