import EmvaultPkcs11.FleetConfig
import EmvaultPkcs11.PolicyExactness

/-! Which texts `decode_hex` takes. It cuts the text every two bytes and reads each piece as a number, so a cut
within a character panics, and `+` followed by a digit counts as a byte. On every other text it returns a byte
string exactly if the text is its hex encoding, in either case. -/

open Effect

namespace EmvaultPkcs11

/-! ### Cutting a text -/

theorem byteLen_cons (c : Char) (chars : List Char) : byteLen (c :: chars) = c.utf8Size + byteLen chars := by
  simp [byteLen]

theorem byteLen_nil : byteLen [] = 0 := rfl

theorem byteLen_append (before after : List Char) :
    byteLen (before ++ after) = byteLen before + byteLen after := by
  simp [byteLen]

theorem splitAtByte_cons_of_le {c : Char} {n : Nat} (hle : c.utf8Size ≤ n) (chars : List Char) :
    splitAtByte n (c :: chars) =
      (splitAtByte (n - c.utf8Size) chars).map fun split => (c :: split.1, split.2) := by
  have hpos := c.utf8Size_pos
  cases n with
  | zero => omega
  | succ n => rw [splitAtByte, if_pos hle]

theorem splitAtByte_cons_of_lt {c : Char} {n : Nat} (hpos : 0 < n) (hlt : n < c.utf8Size) (chars : List Char) :
    splitAtByte n (c :: chars) = none := by
  cases n with
  | zero => omega
  | succ n => rw [splitAtByte, if_neg (by omega)]

theorem splitAtByte_zero (chars : List Char) : splitAtByte 0 chars = some ([], chars) := by
  cases chars <;> rfl

theorem splitAtByte_append (before after : List Char) :
    splitAtByte (byteLen before) (before ++ after) = some (before, after) := by
  induction before with
  | nil => exact splitAtByte_zero after
  | cons c before ih =>
      rw [List.cons_append, byteLen_cons, splitAtByte_cons_of_le (Nat.le_add_right _ _),
        Nat.add_sub_cancel_left, ih]
      rfl

/-- A cut after whole characters leaves the rest to be cut. -/
theorem slice_append (before after : List Char) (length : Nat) :
    (slice (.ofList (before ++ after)) (byteLen before) (byteLen before + length) : Except (Stop String) String) =
      match splitAtByte length after with
      | some (piece, _) => .ok (.ofList piece)
      | none => .error (.panic "byte index is out of bounds or not a char boundary") := by
  cases hcut : splitAtByte length after with
  | none =>
      simp only [slice, String.toList_ofList, splitAtByte_append, Option.bind_some, Nat.add_sub_cancel_left, hcut]
  | some split =>
      simp only [slice, String.toList_ofList, splitAtByte_append, Option.bind_some, Nat.add_sub_cancel_left, hcut]

/-! ### Digits -/

namespace Fleet

/-- One of `0` to `9`, `a` to `f` and `A` to `F`. -/
def IsHexDigit (c : Char) : Prop := ('0' ≤ c ∧ c ≤ '9') ∨ ('a' ≤ c ∧ c ≤ 'f') ∨ ('A' ≤ c ∧ c ≤ 'F')

instance (c : Char) : Decidable (IsHexDigit c) := inferInstanceAs (Decidable (_ ∨ _))

/-- The lower-case digits of a byte string, two for each byte. -/
def hexDigits (bytes : Bytes) : List Char :=
  bytes.flatMap fun byte => [(byte.toNat / 16).digitChar, (byte.toNat % 16).digitChar]

/-- The characters are the digits of the byte string, in either case. -/
def Denotes (chars : List Char) (bytes : Bytes) : Prop := chars.map Char.toLower = hexDigits bytes

end Fleet

theorem exists_ascii {c : Char} (hc : c.toNat < 128) : ∃ n : Fin 128, c = Char.ofNat n :=
  ⟨⟨c.toNat, hc⟩, (Char.ofNat_toNat c).symm⟩

theorem utf8Size_of_ascii {c : Char} (hc : c.toNat < 128) : c.utf8Size = 1 := by
  rw [Char.utf8Size_eq_one_iff, UInt32.le_iff_toNat_le]
  exact Nat.le_of_lt_succ hc

theorem toLower_of_not_ascii {c : Char} (hc : 128 ≤ c.toNat) : c.toLower = c := by
  unfold Char.toLower
  rw [dif_neg]
  rintro ⟨-, hle⟩
  have hle : c.toNat ≤ 90 := UInt32.le_iff_toNat_le.mp hle
  omega

theorem toDigit_of_not_ascii {c : Char} (hc : 128 ≤ c.toNat) (radix : Nat) : toDigit radix c = none := by
  have hval : c.val.toNat = c.toNat := rfl
  have hdigit : c.isDigit = false := by
    simp [Char.isDigit, UInt32.le_iff_toNat_le]
    omega
  have hlower : c.isLower = false := by
    simp [Char.isLower, UInt32.le_iff_toNat_le]
    omega
  have hupper : c.isUpper = false := by
    simp [Char.isUpper, UInt32.le_iff_toNat_le]
    omega
  simp [toDigit, hdigit, hlower, hupper]

theorem digitChar_toNat_lt {digit : Nat} (hdigit : digit < 16) : digit.digitChar.toNat < 128 := by
  have h : ∀ digit : Fin 16, digit.val.digitChar.toNat < 128 := by decide
  exact h ⟨digit, hdigit⟩

/-- `to_digit` knows the sixteen digits in either case. -/
theorem toDigit_sixteen {c : Char} {digit : Nat} :
    toDigit 16 c = some digit ↔ digit < 16 ∧ c.toLower = digit.digitChar := by
  by_cases hdigit : digit < 16
  · by_cases hc : c.toNat < 128
    · have h : ∀ n : Fin 128, ∀ digit : Fin 16, toDigit 16 (Char.ofNat n) = some digit.val ↔
          (Char.ofNat n).toLower = digit.val.digitChar := by decide +kernel
      obtain ⟨n, rfl⟩ := exists_ascii hc
      exact (h n ⟨digit, hdigit⟩).trans (and_iff_right hdigit).symm
    · refine iff_of_false ?_ ?_
      · simp [toDigit_of_not_ascii (Nat.le_of_not_lt hc)]
      · rintro ⟨-, hlower⟩
        rw [toLower_of_not_ascii (Nat.le_of_not_lt hc)] at hlower
        exact hc (hlower ▸ digitChar_toNat_lt hdigit)
  · refine iff_of_false (fun hsome => hdigit ?_) (fun h => hdigit h.1)
    exact of_decide_eq_true (Option.filter_eq_some_iff.mp hsome).2

namespace Fleet

theorem IsHexDigit.ascii {c : Char} (hc : IsHexDigit c) : c.toNat < 128 := by
  have hle {d : Char} (hd : d.toNat < 128) (hcd : c ≤ d) : c.toNat < 128 :=
    Nat.lt_of_le_of_lt (UInt32.le_iff_toNat_le.mp hcd) hd
  rcases hc with ⟨-, hc⟩ | ⟨-, hc⟩ | ⟨-, hc⟩
  · exact hle (by decide) hc
  · exact hle (by decide) hc
  · exact hle (by decide) hc

theorem isHexDigit_iff {c : Char} : IsHexDigit c ↔ ∃ digit, toDigit 16 c = some digit := by
  by_cases hc : c.toNat < 128
  · have h : ∀ n : Fin 128, IsHexDigit (Char.ofNat n) ↔ (toDigit 16 (Char.ofNat n)).isSome := by
      decide +kernel
    obtain ⟨n, rfl⟩ := exists_ascii hc
    exact (h n).trans Option.isSome_iff_exists
  · refine iff_of_false (fun h => hc h.ascii) ?_
    simp [toDigit_of_not_ascii (Nat.le_of_not_lt hc)]

theorem not_isHexDigit_plus : ¬IsHexDigit '+' := by decide

theorem byte_of_halves {high low : Nat} (hhigh : high < 16) (hlow : low < 16) :
    (UInt8.ofNat (high * 16 + low)).toNat / 16 = high ∧ (UInt8.ofNat (high * 16 + low)).toNat % 16 = low := by
  rw [UInt8.toNat_ofNat_of_lt' (by simp only [UInt8.size]; omega)]
  omega

/-! ### Pairs -/

/-- A pair that is read as a byte: the first digit may be a sign. -/
def Taken (a b : Char) : Prop := (IsHexDigit a ∨ a = '+') ∧ IsHexDigit b

def AllTaken : List Char → Prop
  | [] => True
  | [_] => False
  | a :: b :: rest => Taken a b ∧ AllTaken rest

/-- A cut within a character, with every pair before it read. -/
def CutShort : List Char → Prop
  | [] => False
  | [c] => 2 < c.utf8Size
  | a :: b :: rest => 2 < a.utf8Size ∨ a.utf8Size = 1 ∧ 1 < b.utf8Size ∨ Taken a b ∧ CutShort rest

/-- The text of two characters as a byte. -/
def readPair (a b : Char) : Except String Nat :=
  match toDigit 16 b with
  | none => .error "invalid digit found in string"
  | some low =>
      if a = '+' then .ok low
      else
        match toDigit 16 a with
        | none => .error "invalid digit found in string"
        | some high => .ok (high * 16 + low)

theorem toDigit_lt {c : Char} {digit : Nat} (h : toDigit 16 c = some digit) : digit < 16 :=
  (toDigit_sixteen.mp h).1

theorem fromStrRadix_pair (a b : Char) : fromStrRadix 16 (2 ^ 8) (.ofList [a, b]) = readPair a b := by
  rw [fromStrRadix, String.toList_ofList, readPair]
  by_cases ha : a = '+'
  · subst ha
    cases hb : toDigit 16 b with
    | none => simp [readDigits, hb]
    | some low =>
        have hlow := toDigit_lt hb
        simp [readDigits, hb, show low < 256 by omega]
  · cases hb : toDigit 16 b with
    | none =>
        cases hhigh : toDigit 16 a with
        | none => simp [readDigits, ha, hhigh]
        | some high =>
            have hlt := toDigit_lt hhigh
            simp [readDigits, ha, hb, hhigh, show high < 256 by omega]
    | some low =>
        have hlow := toDigit_lt hb
        cases hhigh : toDigit 16 a with
        | none => simp [readDigits, ha, hhigh]
        | some high =>
            have hlt := toDigit_lt hhigh
            simp [readDigits, ha, hb, hhigh, show high < 256 by omega, show high * 16 + low < 256 by omega]

/-- The pieces of a text, read one after another. -/
def readPairs : List Char → Except (Stop String) Bytes
  | [] => .ok []
  | [c] =>
      if 2 < c.utf8Size then .error (.panic "byte index is out of bounds or not a char boundary")
      else .error (.err "invalid digit found in string")
  | a :: b :: rest =>
      if 2 < a.utf8Size ∨ a.utf8Size = 1 ∧ 1 < b.utf8Size then
        .error (.panic "byte index is out of bounds or not a char boundary")
      else if a.utf8Size = 2 then .error (.err "invalid digit found in string")
      else
        match readPair a b with
        | .ok value => (readPairs rest).map (UInt8.ofNat value :: ·)
        | .error e => .error (.err e)

/-- A piece of two bytes from position `k` on, as a byte. -/
def readPiece (s : String) (k : Nat) : Except (Stop String) UInt8 := do
  let piece ← slice s k (k + 2)
  match fromStrRadix 16 (2 ^ 8) piece with
  | .ok value => .ok (UInt8.ofNat value)
  | .error e => .error (.err e)

theorem readPiece_cut {before after : List Char} (hcut : splitAtByte 2 after = none) :
    readPiece (.ofList (before ++ after)) (byteLen before) =
      .error (.panic "byte index is out of bounds or not a char boundary") := by
  rw [readPiece, slice_append, hcut]
  rfl

theorem readPiece_wide (before : List Char) {c : Char} (hsize : c.utf8Size = 2) (rest : List Char) :
    readPiece (.ofList (before ++ c :: rest)) (byteLen before) =
      .error (.err "invalid digit found in string") := by
  have hascii : 128 ≤ c.toNat := by
    by_contra hlt
    rw [utf8Size_of_ascii (Nat.lt_of_not_le hlt)] at hsize
    cases hsize
  have hplus : c ≠ '+' := by
    rintro rfl
    cases hsize
  have hread : fromStrRadix 16 (2 ^ 8) (.ofList [c]) = .error "invalid digit found in string" := by
    rw [fromStrRadix, String.toList_ofList]
    simp [readDigits, hplus, toDigit_of_not_ascii hascii]
  rw [readPiece, slice_append, splitAtByte_cons_of_le (Nat.le_of_eq hsize), hsize, Nat.sub_self, splitAtByte_zero]
  simp only [Option.map_some, bind, Except.bind, hread]

theorem readPiece_pair (before : List Char) {a b : Char} (ha : a.utf8Size = 1) (hb : b.utf8Size = 1)
    (rest : List Char) :
    readPiece (.ofList (before ++ a :: b :: rest)) (byteLen before) =
      match readPair a b with
      | .ok value => .ok (UInt8.ofNat value)
      | .error e => .error (.err e) := by
  rw [readPiece, slice_append, splitAtByte_cons_of_le (by omega), splitAtByte_cons_of_le (by omega), ha, hb,
    splitAtByte_zero]
  simp only [Option.map_some, bind, Except.bind, fromStrRadix_pair]

theorem mapM_readPiece_error {s : String} {k length : Nat} (hlength : 2 ≤ length) {e : Stop String}
    (h : readPiece s k = .error e) : (List.range' k (length / 2) 2).mapM (readPiece s) = .error e := by
  rw [show length / 2 = (length - 2) / 2 + 1 by omega, List.range'_succ, List.mapM_cons, h]
  rfl

theorem sizes_of_not_cut {a b : Char} (hcut : ¬(2 < a.utf8Size ∨ a.utf8Size = 1 ∧ 1 < b.utf8Size))
    (hsize : ¬a.utf8Size = 2) : a.utf8Size = 1 ∧ b.utf8Size = 1 := by
  have ha := a.utf8Size_pos
  have hb := b.utf8Size_pos
  omega

/-- Reading the pieces of a text is reading it character by character. -/
theorem mapM_readPiece {after : List Char} (heven : byteLen after % 2 = 0) (before : List Char) :
    (List.range' (byteLen before) (byteLen after / 2) 2).mapM (readPiece (.ofList (before ++ after))) =
      readPairs after := by
  fun_induction readPairs after generalizing before with
  | case1 => rfl
  | case2 c hwide =>
      rw [byteLen_cons] at heven ⊢
      exact mapM_readPiece_error (by omega) (readPiece_cut (splitAtByte_cons_of_lt Nat.two_pos hwide []))
  | case3 c hnarrow =>
      have hpos := c.utf8Size_pos
      rw [byteLen_cons, byteLen_nil] at heven ⊢
      have hsize : c.utf8Size = 2 := by omega
      exact mapM_readPiece_error (by omega) (readPiece_wide before hsize [])
  | case4 a b rest hcut =>
      have hpos := b.utf8Size_pos
      rw [byteLen_cons, byteLen_cons] at heven ⊢
      apply mapM_readPiece_error
      · omega
      apply readPiece_cut
      rcases hcut with hwide | ⟨hone, hwide⟩
      · exact splitAtByte_cons_of_lt Nat.two_pos hwide (b :: rest)
      · rw [splitAtByte_cons_of_le (by omega), hone, splitAtByte_cons_of_lt Nat.one_pos hwide, Option.map_none]
  | case5 a b rest hcut hsize =>
      rw [byteLen_cons, hsize] at heven ⊢
      exact mapM_readPiece_error (by omega) (readPiece_wide before hsize (b :: rest))
  | case6 a b rest hcut hsize value hread ih =>
      obtain ⟨ha, hb⟩ := sizes_of_not_cut hcut hsize
      have hsplit : before ++ a :: b :: rest = (before ++ [a, b]) ++ rest := by
        rw [List.append_assoc, List.cons_append, List.cons_append, List.nil_append]
      have hbytes : byteLen (before ++ [a, b]) = byteLen before + 2 := by
        rw [byteLen_append, byteLen_cons, byteLen_cons, byteLen_nil, ha, hb]
      rw [byteLen_cons, byteLen_cons, ha, hb] at heven ⊢
      rw [show (1 + (1 + byteLen rest)) / 2 = byteLen rest / 2 + 1 by omega, List.range'_succ, List.mapM_cons,
        readPiece_pair before ha hb rest, hread, hsplit, ← hbytes, ih (by omega)]
      cases readPairs rest <;> rfl
  | case7 a b rest hcut hsize e hread =>
      obtain ⟨ha, hb⟩ := sizes_of_not_cut hcut hsize
      rw [byteLen_cons, byteLen_cons, ha, hb] at heven ⊢
      refine mapM_readPiece_error (by omega) ?_
      rw [readPiece_pair before ha hb rest, hread]

theorem decodeHex_eq (s : String) :
    decodeHex s = if byteLen (trim s).toList % 2 ≠ 0 then .error (.err "odd-length hex")
      else readPairs (trim s).toList := by
  unfold decodeHex
  by_cases heven : byteLen (trim s).toList % 2 = 0
  · have h := mapM_readPiece heven []
    rw [List.nil_append, String.ofList_toList] at h
    rw [if_neg (by omega), if_neg (by omega), ← h]
    rfl
  · rw [if_pos heven, if_pos heven]

/-! ### What is read -/

theorem denotes_nil {bytes : Bytes} : Denotes [] bytes ↔ bytes = [] := by
  cases bytes <;> simp [Denotes, hexDigits]

theorem not_denotes_one (c : Char) (bytes : Bytes) : ¬Denotes [c] bytes := by
  cases bytes <;> simp [Denotes, hexDigits]

theorem denotes_pair {a b : Char} {rest : List Char} {bytes : Bytes} :
    Denotes (a :: b :: rest) bytes ↔ ∃ high low bytes', toDigit 16 a = some high ∧ toDigit 16 b = some low ∧
      bytes = UInt8.ofNat (high * 16 + low) :: bytes' ∧ Denotes rest bytes' := by
  cases bytes with
  | nil => simp [Denotes, hexDigits]
  | cons byte bytes =>
      have hbyte := byte.toNat_lt
      simp only [Denotes, hexDigits, List.map_cons, List.flatMap_cons, List.cons_append, List.nil_append,
        List.cons.injEq, toDigit_sixteen]
      constructor
      · rintro ⟨ha, hb, hrest⟩
        refine ⟨byte.toNat / 16, byte.toNat % 16, bytes, ⟨by omega, ha⟩, ⟨by omega, hb⟩, ⟨?_, rfl⟩, hrest⟩
        rw [show byte.toNat / 16 * 16 + byte.toNat % 16 = byte.toNat by omega, UInt8.ofNat_toNat]
      · rintro ⟨high, low, bytes', ⟨hhigh, ha⟩, ⟨hlow, hb⟩, ⟨rfl, rfl⟩, hrest⟩
        obtain ⟨hdiv, hmod⟩ := byte_of_halves hhigh hlow
        rw [hdiv, hmod]
        exact ⟨ha, hb, hrest⟩

theorem taken_of_digits {a b : Char} {high low : Nat} (ha : toDigit 16 a = some high)
    (hb : toDigit 16 b = some low) : Taken a b :=
  ⟨Or.inl (isHexDigit_iff.mpr ⟨high, ha⟩), isHexDigit_iff.mpr ⟨low, hb⟩⟩

theorem Taken.sizes {a b : Char} (h : Taken a b) : a.utf8Size = 1 ∧ b.utf8Size = 1 := by
  obtain ⟨ha | rfl, hb⟩ := h
  · exact ⟨utf8Size_of_ascii ha.ascii, utf8Size_of_ascii hb.ascii⟩
  · exact ⟨rfl, utf8Size_of_ascii hb.ascii⟩

/-- A pair is read exactly if it is taken. -/
theorem readPair_ok_iff {a b : Char} : (∃ value, readPair a b = .ok value) ↔ Taken a b := by
  unfold readPair Taken
  rw [isHexDigit_iff, isHexDigit_iff]
  cases hb : toDigit 16 b with
  | none => simp
  | some low =>
      by_cases ha : a = '+'
      · simp [ha]
      · cases hhigh : toDigit 16 a <;> simp [ha]

/-- A pair without a sign is read as its two digits. -/
theorem readPair_eq_ok {a b : Char} {value : Nat} (ha : a ≠ '+') :
    readPair a b = .ok value ↔
      ∃ high low, toDigit 16 a = some high ∧ toDigit 16 b = some low ∧ value = high * 16 + low := by
  unfold readPair
  cases hb : toDigit 16 b with
  | none => simp
  | some low =>
      simp only [if_neg ha]
      cases hhigh : toDigit 16 a <;> simp [eq_comm]

theorem readPairs_ok_iff {chars : List Char} : (∃ bytes, readPairs chars = .ok bytes) ↔ AllTaken chars := by
  fun_induction readPairs chars with
  | case1 => simp [AllTaken]
  | case2 c hwide => simp [AllTaken]
  | case3 c hnarrow => simp [AllTaken]
  | case4 a b rest hcut =>
      refine iff_of_false (by rintro ⟨bytes, ⟨⟩⟩) (fun h => ?_)
      obtain ⟨ha, hb⟩ := h.1.sizes
      omega
  | case5 a b rest hcut hsize =>
      refine iff_of_false (by rintro ⟨bytes, ⟨⟩⟩) (fun h => ?_)
      obtain ⟨ha, -⟩ := h.1.sizes
      omega
  | case6 a b rest hcut hsize value hread ih =>
      rw [AllTaken, and_iff_right (readPair_ok_iff.mp ⟨value, hread⟩), ← ih]
      cases readPairs rest <;> simp [Except.map]
  | case7 a b rest hcut hsize e hread =>
      refine iff_of_false (by rintro ⟨bytes, ⟨⟩⟩) (fun h => ?_)
      obtain ⟨value, hok⟩ := readPair_ok_iff.mpr h.1
      rw [hread] at hok
      cases hok

theorem not_calm_panic {ε α : Type} (message : String) : ¬Calm (.error (.panic message) : Except (Stop ε) α) :=
  fun h => h message rfl

/-- The reading of a text panics exactly if a cut within a character comes before any other fault. -/
theorem not_calm_readPairs_iff {chars : List Char} : ¬Calm (readPairs chars) ↔ CutShort chars := by
  fun_induction readPairs chars with
  | case1 => exact iff_of_false (not_not_intro (Calm.ok [])) id
  | case2 c hwide => exact iff_of_true (not_calm_panic _) hwide
  | case3 c hnarrow => exact iff_of_false (not_not_intro (Calm.err _)) hnarrow
  | case4 a b rest hcut => exact iff_of_true (not_calm_panic _) (hcut.imp_right Or.inl)
  | case5 a b rest hcut hsize =>
      apply iff_of_false (not_not_intro (Calm.err _))
      rintro (hwide | ⟨hone, -⟩ | ⟨htaken, -⟩)
      · omega
      · omega
      · obtain ⟨ha, -⟩ := htaken.sizes
        omega
  | case6 a b rest hcut hsize value hread ih =>
      have htaken := readPair_ok_iff.mp ⟨value, hread⟩
      rw [CutShort, ← or_assoc, or_iff_right hcut, and_iff_right htaken, ← ih]
      cases readPairs rest <;> simp [Except.map, Calm]
  | case7 a b rest hcut hsize e hread =>
      apply iff_of_false (not_not_intro (Calm.err _))
      rw [CutShort, ← or_assoc, or_iff_right hcut]
      rintro ⟨htaken, -⟩
      obtain ⟨value, hok⟩ := readPair_ok_iff.mpr htaken
      rw [hread] at hok
      cases hok

theorem allTaken_of_denotes {chars : List Char} {bytes : Bytes} (h : Denotes chars bytes) : AllTaken chars := by
  fun_induction AllTaken chars generalizing bytes with
  | case1 => trivial
  | case2 c => exact not_denotes_one c bytes h
  | case3 a b rest ih =>
      obtain ⟨high, low, bytes', ha, hb, -, hrest⟩ := denotes_pair.mp h
      exact ⟨taken_of_digits ha hb, ih hrest⟩

/-- A text without a sign is read as what it denotes. -/
theorem readPairs_eq_ok {chars : List Char} (hplus : '+' ∉ chars) {bytes : Bytes} :
    readPairs chars = .ok bytes ↔ Denotes chars bytes := by
  fun_induction AllTaken chars generalizing bytes with
  | case1 => rw [denotes_nil, readPairs, Except.ok.injEq, eq_comm]
  | case2 c =>
      refine iff_of_false (fun h => ?_) (not_denotes_one c bytes)
      exact readPairs_ok_iff.mp ⟨bytes, h⟩
  | case3 a b rest ih =>
      obtain ⟨ha, hb, hrest⟩ : '+' ≠ a ∧ '+' ≠ b ∧ '+' ∉ rest := by
        simpa only [List.mem_cons, not_or] using hplus
      by_cases htaken : Taken a b
      · obtain ⟨value, hread⟩ := readPair_ok_iff.mpr htaken
        obtain ⟨high, low, hhigh, hlow, rfl⟩ := (readPair_eq_ok (Ne.symm ha)).mp hread
        obtain ⟨hasize, hbsize⟩ := htaken.sizes
        rw [denotes_pair, readPairs, if_neg (by omega), if_neg (by omega), hread]
        simp only [hhigh, hlow, Option.some.injEq, exists_and_left, exists_eq_left', ← ih hrest]
        cases readPairs rest <;> simp [Except.map, eq_comm]
      · refine iff_of_false (fun h => htaken ?_) (fun h => htaken ?_)
        · exact (readPairs_ok_iff.mp ⟨bytes, h⟩).1
        · exact (allTaken_of_denotes h).1

theorem plus_not_mem_of_denotes {chars : List Char} {bytes : Bytes} (h : Denotes chars bytes) : '+' ∉ chars := by
  fun_induction AllTaken chars generalizing bytes with
  | case1 => exact List.not_mem_nil
  | case2 c => exact absurd h (not_denotes_one c bytes)
  | case3 a b rest ih =>
      obtain ⟨high, low, bytes', ha, hb, -, hrest⟩ := denotes_pair.mp h
      have hne {c : Char} {digit : Nat} (hc : toDigit 16 c = some digit) : '+' ≠ c := by
        rintro rfl
        exact not_isHexDigit_plus (isHexDigit_iff.mpr ⟨digit, hc⟩)
      simp only [List.mem_cons, not_or]
      exact ⟨hne ha, hne hb, ih hrest⟩

theorem AllTaken.even {chars : List Char} (h : AllTaken chars) : byteLen chars % 2 = 0 := by
  fun_induction AllTaken chars with
  | case1 => rfl
  | case2 c => exact h.elim
  | case3 a b rest ih =>
      obtain ⟨ha, hb⟩ := h.1.sizes
      have hrest := ih h.2
      rw [byteLen_cons, byteLen_cons, ha, hb]
      omega

theorem even_of_denotes {chars : List Char} {bytes : Bytes} (h : Denotes chars bytes) :
    byteLen chars % 2 = 0 :=
  (allTaken_of_denotes h).even

/-- An even number of hexadecimal digits. -/
def EvenHex (chars : List Char) : Prop := chars.length % 2 = 0 ∧ ∀ c ∈ chars, IsHexDigit c

/-- A text denotes a byte string exactly if it is an even number of digits. -/
theorem exists_denotes_iff {chars : List Char} : (∃ bytes, Denotes chars bytes) ↔ EvenHex chars := by
  unfold EvenHex
  fun_induction AllTaken chars with
  | case1 => simp [denotes_nil]
  | case2 c => simp [not_denotes_one]
  | case3 a b rest ih =>
      constructor
      · rintro ⟨bytes, h⟩
        obtain ⟨high, low, bytes', ha, hb, -, hrest⟩ := denotes_pair.mp h
        obtain ⟨heven, hdigits⟩ := ih.mp ⟨bytes', hrest⟩
        refine ⟨by simp only [List.length_cons]; omega, ?_⟩
        simp only [List.forall_mem_cons]
        exact ⟨isHexDigit_iff.mpr ⟨high, ha⟩, isHexDigit_iff.mpr ⟨low, hb⟩, hdigits⟩
      · simp only [List.length_cons, List.forall_mem_cons]
        rintro ⟨heven, ha, hb, hdigits⟩
        obtain ⟨high, hhigh⟩ := isHexDigit_iff.mp ha
        obtain ⟨low, hlow⟩ := isHexDigit_iff.mp hb
        obtain ⟨bytes, hrest⟩ := ih.mpr ⟨by omega, hdigits⟩
        exact ⟨_, denotes_pair.mpr ⟨high, low, bytes, hhigh, hlow, rfl, hrest⟩⟩

/-! ### Texts that are misread -/

/-- A text in which a cut falls within a character, or one of digits with a sign for some of them. -/
def Mishandled (chars : List Char) : Prop :=
  byteLen chars % 2 = 0 ∧ CutShort chars ∨ AllTaken chars ∧ '+' ∈ chars

theorem calm_decodeHex_iff {s : String} :
    Calm (decodeHex s) ↔ ¬(byteLen (trim s).toList % 2 = 0 ∧ CutShort (trim s).toList) := by
  rw [decodeHex_eq]
  by_cases heven : byteLen (trim s).toList % 2 = 0
  · rw [if_neg (not_not_intro heven), and_iff_right heven, ← not_calm_readPairs_iff, not_not]
  · rw [if_pos heven]
    exact iff_of_true (Calm.err _) fun h => heven h.1

theorem decodeHex_ok_iff {s : String} : (∃ bytes, decodeHex s = .ok bytes) ↔ AllTaken (trim s).toList := by
  rw [decodeHex_eq]
  by_cases heven : byteLen (trim s).toList % 2 = 0
  · rw [if_neg (not_not_intro heven), readPairs_ok_iff]
  · rw [if_pos heven]
    exact iff_of_false (by rintro ⟨bytes, ⟨⟩⟩) (mt AllTaken.even heven)

theorem decodeHex_eq_ok {s : String} (hplus : '+' ∉ (trim s).toList) {bytes : Bytes} :
    decodeHex s = .ok bytes ↔ Denotes (trim s).toList bytes := by
  rw [decodeHex_eq]
  by_cases heven : byteLen (trim s).toList % 2 = 0
  · rw [if_neg (not_not_intro heven), readPairs_eq_ok hplus]
  · rw [if_pos heven]
    exact iff_of_false (by rintro ⟨⟩) fun h => heven (even_of_denotes h)

/-- A text with a sign that is taken is misread. -/
theorem mishandled_of_sign {s : String} {bytes : Bytes} (h : decodeHex s = .ok bytes)
    (hplus : '+' ∈ (trim s).toList) : Mishandled (trim s).toList := by
  refine Or.inr ⟨?_, hplus⟩
  rw [← decodeHex_ok_iff]
  exact ⟨bytes, h⟩

theorem decodeHex_of_denotes {s : String} {bytes : Bytes} (h : Denotes (trim s).toList bytes) :
    decodeHex s = .ok bytes :=
  (decodeHex_eq_ok (plus_not_mem_of_denotes h)).mpr h

/-! ### Written texts -/

theorem trim_eq_self {s : String} (h : ∀ c ∈ s.toList, isWhitespace c = false) : trim s = s := by
  have hself {chars : List Char} (hchars : ∀ c ∈ chars, isWhitespace c = false) :
      chars.dropWhile isWhitespace = chars := by
    cases chars with
    | nil => rfl
    | cons c chars => simp [hchars c List.mem_cons_self]
  rw [trim, hself h, hself fun c hc => h c (List.mem_reverse.mp hc), List.reverse_reverse, String.ofList_toList]

theorem mem_hexDigits {bytes : Bytes} {c : Char} (hc : c ∈ hexDigits bytes) :
    ∃ digit < 16, c = digit.digitChar := by
  obtain ⟨byte, -, hbyte⟩ := List.mem_flatMap.mp hc
  have hlt := byte.toNat_lt
  rcases List.mem_pair.mp hbyte with rfl | rfl
  · exact ⟨byte.toNat / 16, by omega, rfl⟩
  · exact ⟨byte.toNat % 16, by omega, rfl⟩

/-- What holds of the sixteen digits holds of the digits of a byte string. -/
theorem forall_hexDigits {P : Char → Prop} (h : ∀ digit : Fin 16, P digit.val.digitChar) (bytes : Bytes) :
    ∀ c ∈ hexDigits bytes, P c := by
  intro c hc
  obtain ⟨digit, hdigit, rfl⟩ := mem_hexDigits hc
  exact h ⟨digit, hdigit⟩

/-- The hex encoding of a byte string, in either case, denotes it. -/
theorem denotes_hexDigits (bytes : Bytes) (write : Char → Char)
    (hwrite : ∀ digit : Fin 16, isWhitespace (write digit.val.digitChar) = false ∧
      (write digit.val.digitChar).toLower = digit.val.digitChar) :
    Denotes (trim (.ofList ((hexDigits bytes).map write))).toList bytes := by
  have hdigits : ∀ c ∈ hexDigits bytes, isWhitespace (write c) = false ∧ (write c).toLower = c :=
    forall_hexDigits hwrite bytes
  have htrim : trim (.ofList ((hexDigits bytes).map write)) = .ofList ((hexDigits bytes).map write) := by
    apply trim_eq_self
    rw [String.toList_ofList, List.forall_mem_map]
    exact fun c hc => (hdigits c hc).1
  rw [htrim, String.toList_ofList, Denotes, List.map_map]
  calc (hexDigits bytes).map (Char.toLower ∘ write)
      = (hexDigits bytes).map id := List.map_congr_left fun c hc => (hdigits c hc).2
    _ = hexDigits bytes := List.map_id _

theorem denotes_lowerCase (bytes : Bytes) : Denotes (trim (.ofList (hexDigits bytes))).toList bytes := by
  have h := denotes_hexDigits bytes id (by decide)
  rwa [List.map_id] at h

/-! ### Key texts -/

/-- A text that begins with `seed:` is none of the other words, in any case. -/
theorem ne_word_of_seed {text hex word : String} (h : stripStart "seed:" text = some hex)
    (hword : ¬"seed:".toList <+: (toAsciiLowercase word).toList) : eqIgnoreAsciiCase text word = false := by
  have hlower : (toAsciiLowercase text).toList = "seed:".toList ++ hex.toList.map Char.toLower := by
    rw [toAsciiLowercase, String.toList_ofList, stripStart_eq_some_iff.mp h, List.map_append]
    rfl
  refine decide_eq_false fun heq => hword ?_
  rw [← heq, hlower]
  exact List.prefix_append _ _

theorem ne_empty_of_seed {text hex : String} (h : stripStart "seed:" text = some hex) : text ≠ "" := by
  rintro rfl
  cases stripStart_eq_some_iff.mp h

/-- A key text with a seed is read as its hex digits. -/
theorem parseKeyInit_seed {text hex : String} (h : stripStart "seed:" (trim text) = some hex) (i : Nat) :
    parseKeyInit text i = (do
      let key := fkey i "KEY"
      let seed ← (decodeHex hex).mapError (Stop.map fun e => .invalidConfig s!"{key} seed hex: {e}")
      .ok (.deriveFromSeed seed)) := by
  have hnonempty : (trim text).isEmpty = false := by
    rw [Bool.eq_false_iff, ne_eq, String.isEmpty_iff]
    exact ne_empty_of_seed h
  rw [parseKeyInit, ne_word_of_seed h (by decide), ne_word_of_seed h (by decide), hnonempty, h]
  rfl

/-- Decoding is exact on every text but the misread ones, and inverts both hex encodings. -/
theorem decodeHex_exact (s : String) :
    ((Calm (decodeHex s) ∧
        ((∃ bytes, decodeHex s = .ok bytes) ↔ EvenHex (trim s).toList) ∧
        (∀ bytes, decodeHex s = .ok bytes ↔ Denotes (trim s).toList bytes) ∧
        ∀ text i, stripStart "seed:" (trim text) = some s → ¬EvenHex (trim s).toList →
          let key := fkey i "KEY"
          ∃ e, decodeHex s = .error (.err e) ∧
            parseKeyInit text i = .error (.err (.invalidConfig s!"{key} seed hex: {e}"))) ↔
      ¬Mishandled (trim s).toList) ∧
    ∀ bytes, decodeHex (.ofList (hexDigits bytes)) = .ok bytes ∧
      decodeHex (.ofList ((hexDigits bytes).map Char.toUpper)) = .ok bytes := by
  refine ⟨⟨?_, ?_⟩, fun bytes => ⟨?_, ?_⟩⟩
  · rintro ⟨hcalm, hok, -, -⟩ (hcut | ⟨htaken, hplus⟩)
    · exact calm_decodeHex_iff.mp hcalm hcut
    · rw [← decodeHex_ok_iff, hok] at htaken
      exact not_isHexDigit_plus (htaken.2 '+' hplus)
  · intro hhandled
    have hcalm := calm_decodeHex_iff.mpr fun hcut => hhandled (Or.inl hcut)
    have hdenotes (bytes : Bytes) : decodeHex s = .ok bytes ↔ Denotes (trim s).toList bytes := by
      by_cases hplus : '+' ∈ (trim s).toList
      · refine iff_of_false (fun h => ?_) (fun h => plus_not_mem_of_denotes h hplus)
        exact hhandled (mishandled_of_sign h hplus)
      · exact decodeHex_eq_ok hplus
    have hok : (∃ bytes, decodeHex s = .ok bytes) ↔ EvenHex (trim s).toList := by
      rw [← exists_denotes_iff]
      exact exists_congr hdenotes
    refine ⟨hcalm, hok, hdenotes, fun text i htext hodd => ?_⟩
    cases hread : decodeHex s with
    | ok bytes => exact absurd (hok.mp ⟨bytes, hread⟩) hodd
    | error stop =>
        cases stop with
        | panic message => exact absurd hread (hcalm message)
        | err e =>
            refine ⟨e, rfl, ?_⟩
            rw [parseKeyInit_seed htext, hread]
            rfl
  · exact decodeHex_of_denotes (denotes_lowerCase bytes)
  · exact decodeHex_of_denotes (denotes_hexDigits bytes Char.toUpper (by decide))

/-- A cut within a character panics, and a sign is read. -/
theorem misread_texts :
    ¬Calm (decodeHex "aéb") ∧ decodeHex "+f" = .ok [15] ∧ ¬EvenHex "+f".toList ∧
      parseKeyInit "seed:+f" 0 = .ok (.deriveFromSeed [15]) := by
  refine ⟨fun h => h "byte index is out of bounds or not a char boundary" ?_, ?_, fun h => ?_, ?_⟩
  · decide +kernel
  · decide +kernel
  · exact not_isHexDigit_plus (h.2 '+' List.mem_cons_self)
  · decide +kernel

end Fleet

end EmvaultPkcs11
