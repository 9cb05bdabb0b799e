import EmvaultPkcs11.FleetConfig
import EmvaultPkcs11.LibraryNumerals

/-! Numbers and derivation paths as texts. A number that is written in decimal is read back by the standard
parser, and a displayed path has one reading, segment by segment. -/

namespace EmvaultPkcs11

/-! ### Numbers -/

theorem toDigit_ten {c : Char} (hc : c.isDigit) : toDigit 10 c = some (c.toNat - '0'.toNat) := by
  have hle := (Char.isDigit_iff_toNat.mp hc).2
  have hzero : '0'.toNat = 48 := rfl
  have hnine : '9'.toNat = 57 := rfl
  rw [toDigit, if_pos hc, Option.filter_some, if_pos (decide_eq_true (by omega))]

/-- Digits are read as their value if it is below the bound. -/
theorem readDigits_ten {digits : List Char} (hdigits : ∀ c ∈ digits, c.isDigit) {value bound : Nat}
    (hbound : Nat.ofDigitChars 10 digits value < bound) :
    readDigits 10 bound value digits = .ok (Nat.ofDigitChars 10 digits value) := by
  induction digits generalizing value with
  | nil => rfl
  | cons c digits ih =>
      obtain ⟨hc, hdigits⟩ := List.forall_mem_cons.mp hdigits
      rw [Nat.ofDigitChars_cons] at hbound ⊢
      have hle : 10 * value + (c.toNat - '0'.toNat) < bound := by
        have h : Nat.ofDigitChars 10 digits (10 * value + (c.toNat - '0'.toNat)) =
            10 ^ digits.length * (10 * value + (c.toNat - '0'.toNat)) + Nat.ofDigitChars 10 digits 0 :=
          Nat.ofDigitChars_eq_ofDigitChars_zero
        have hpos := Nat.one_le_pow digits.length 10 (by decide)
        have hmul := Nat.le_mul_of_pos_left (10 * value + (c.toNat - '0'.toNat)) hpos
        omega
      simp only [readDigits, toDigit_ten hc, Nat.mul_comm value 10, if_pos hle]
      exact ih hdigits hbound

/-- A number that is written in decimal is read back. -/
theorem fromStrRadix_toString {n bound : Nat} (hn : n < bound) : fromStrRadix 10 bound (toString n) = .ok n := by
  have hdigits : ∀ c ∈ (toString n).toList, c.isDigit := fun c hc => Numeral.isDigit_of_mem hc
  have hvalue := Numeral.ofDigitChars_toString n
  have hread : readDigits 10 bound 0 (toString n).toList = .ok n := by
    have h := readDigits_ten hdigits (hvalue.symm ▸ hn)
    rwa [hvalue] at h
  have hplus : '+' ∉ (toString n).toList := fun hmem => absurd (hdigits '+' hmem) (by decide)
  rw [fromStrRadix]
  split
  case h_1 hnil => exact absurd hnil (Numeral.toList_ne_nil n)
  case h_2 heq => exact absurd (heq ▸ List.mem_cons_self) hplus
  case h_3 rest heq => exact absurd (heq ▸ List.mem_cons_self) hplus
  case h_4 => exact hread

theorem parseU64_toString (n : UInt64) : parseU64 (toString n) = .ok n := by
  have h : fromStrRadix 10 (2 ^ 64) (toString n) = .ok n.toNat := fromStrRadix_toString n.toNat_lt
  rw [parseU64, h]
  exact congrArg Except.ok UInt64.ofNat_toNat

/-! ### Derivation paths -/

/-- Reads a segment: a number below 2^31, with a mark behind it if it is hardened. -/
def readChild (segment : List Char) : Except String ChildNumber := do
  let hardened := segment.getLast?.any fun c => c ∈ "'h".toList
  let index ← fromStrRadix 10 (2 ^ 32) (.ofList (if hardened then segment.dropLast else segment))
  if h : index < 2 ^ 31 then .ok (if hardened then .hardened ⟨index, h⟩ else .normal ⟨index, h⟩)
  else .error "invalid child number"

/-- Reads a path: segments between slashes, with or without a leading `m`. -/
def readPath (text : String) : Except String DerivationPath :=
  if text = "" ∨ text = "m" ∨ text = "m/" then .ok []
  else (((stripStart "m/" text).getD text).toList.splitOn '/').mapM readChild

/-- The text of a path with the leading `m`. -/
def pathText (path : DerivationPath) : String := if path = [] then "m" else "m/" ++ displayPath path

/-- A character of a segment. -/
def SegmentChar (c : Char) : Prop := c.isDigit ∨ c ∈ "'".toList

theorem segmentChar_of_mem {child : ChildNumber} {c : Char} (hc : c ∈ child.display.toList) : SegmentChar c := by
  cases child with
  | normal index => exact Or.inl (Numeral.isDigit_of_mem hc)
  | hardened index =>
      rw [ChildNumber.display, String.toList_append, List.mem_append] at hc
      exact hc.imp_left Numeral.isDigit_of_mem

theorem readChild_display (child : ChildNumber) : readChild child.display.toList = .ok child := by
  cases child with
  | normal index =>
      have hlast : ((toString index.val).toList.getLast?.any fun c => c ∈ "'h".toList) = false := by
        rw [Option.any_eq_false]
        intro c hc
        refine decide_eq_false fun hmark => ?_
        have hdigit := Numeral.isDigit_of_mem (List.mem_of_getLast? hc)
        have hmarks : ∀ c ∈ "'h".toList, c.isDigit = false := by
          intro c hc
          fin_cases hc <;> rfl
        rw [hmarks c hmark] at hdigit
        cases hdigit
      have hread := fromStrRadix_toString (show index.val < 2 ^ 32 by omega)
      rw [readChild, ChildNumber.display, hlast]
      simp only [Bool.false_eq_true, if_false, String.ofList_toList, hread, bind, Except.bind, index.isLt, dite_true]
  | hardened index =>
      have hread := fromStrRadix_toString (show index.val < 2 ^ 32 by omega)
      have hmark : "'".toList ≠ [] := by decide
      have hlast : (((toString index.val).toList ++ "'".toList).getLast?.any fun c => c ∈ "'h".toList) = true := by
        rw [List.getLast?_append_of_ne_nil _ hmark]
        decide
      have hdrop : ((toString index.val).toList ++ "'".toList).dropLast = (toString index.val).toList := by
        rw [List.dropLast_append_of_ne_nil hmark]
        exact List.append_nil _
      rw [readChild, ChildNumber.display, String.toList_append, hlast]
      simp only [if_true, hdrop, String.ofList_toList, hread, bind, Except.bind, index.isLt, dite_true]

theorem mapM_readChild (path : DerivationPath) :
    (path.map fun child => child.display.toList).mapM readChild = .ok path := by
  induction path with
  | nil => rfl
  | cons child path ih =>
      rw [List.map_cons, List.mapM_cons, readChild_display, ih]
      rfl

theorem toList_displayPath (path : DerivationPath) :
    (displayPath path).toList = ['/'].intercalate (path.map fun child => child.display.toList) := by
  rw [displayPath, String.toList_intercalate, List.map_map]
  rfl

theorem mem_displayPath {path : DerivationPath} {c : Char} (hc : c ∈ (displayPath path).toList) :
    SegmentChar c ∨ c = '/' := by
  rw [toList_displayPath] at hc
  induction path with
  | nil => cases hc
  | cons child path ih =>
      cases path with
      | nil => exact Or.inl (segmentChar_of_mem (List.intercalate_singleton ▸ hc))
      | cons child' path =>
          rw [List.map_cons, List.map_cons, List.intercalate_cons_cons, List.mem_append, List.mem_append,
            List.mem_singleton] at hc
          rcases hc with (hc | hc) | hc
          · exact Or.inl (segmentChar_of_mem hc)
          · exact Or.inr hc
          · exact ih hc

/-- The slashes of a displayed path are those between its segments. -/
theorem splitOn_displayPath {path : DerivationPath} (hpath : path ≠ []) :
    (displayPath path).toList.splitOn '/' = path.map fun child => child.display.toList := by
  rw [toList_displayPath]
  apply List.splitOn_intercalate
  · intro segment hsegment hslash
    obtain ⟨child, -, rfl⟩ := List.mem_map.mp hsegment
    have hchar := segmentChar_of_mem hslash
    exact absurd hchar (by unfold SegmentChar; decide)
  · simpa using hpath

theorem display_head (child : ChildNumber) : ∃ c rest, child.display.toList = c :: rest ∧ c.isDigit := by
  have hnumeral (n : Nat) : ∃ c rest, (toString n).toList = c :: rest ∧ c.isDigit := by
    obtain ⟨c, rest, heq⟩ := List.exists_cons_of_ne_nil (Numeral.toList_ne_nil n)
    exact ⟨c, rest, heq, Numeral.isDigit_of_mem (heq ▸ List.mem_cons_self)⟩
  cases child with
  | normal index => exact hnumeral index.val
  | hardened index =>
      obtain ⟨c, rest, heq, hc⟩ := hnumeral index.val
      refine ⟨c, rest ++ "'".toList, ?_, hc⟩
      rw [ChildNumber.display, String.toList_append, heq, List.cons_append]

/-- A displayed path that is not empty begins with a digit. -/
theorem displayPath_head {path : DerivationPath} (hpath : path ≠ []) :
    ∃ c rest, (displayPath path).toList = c :: rest ∧ c.isDigit := by
  obtain ⟨child, path, rfl⟩ := List.exists_cons_of_ne_nil hpath
  obtain ⟨c, rest, heq, hc⟩ := display_head child
  rw [toList_displayPath, List.map_cons]
  cases path with
  | nil => exact ⟨c, rest, by rw [List.map_nil, List.intercalate_singleton, heq], hc⟩
  | cons child' path =>
      rw [List.map_cons, List.intercalate_cons_cons, heq]
      exact ⟨c, _, rfl, hc⟩

theorem readPath_displayPath (path : DerivationPath) : readPath (displayPath path) = .ok path := by
  by_cases hpath : path = []
  · subst hpath
    rfl
  · obtain ⟨c, rest, heq, hc⟩ := displayPath_head hpath
    have hm (after : List Char) : (displayPath path).toList ≠ 'm' :: after := by
      intro h
      rw [h, List.cons.injEq] at heq
      rw [← heq.1] at hc
      cases hc
    have htext : ¬(displayPath path = "" ∨ displayPath path = "m" ∨ displayPath path = "m/") := by
      rintro (h | h | h)
      · rw [h] at heq
        cases heq
      · exact hm [] (by rw [h]; rfl)
      · exact hm ['/'] (by rw [h]; rfl)
    have hstrip : stripStart "m/" (displayPath path) = none := by
      rw [Option.eq_none_iff_forall_ne_some]
      exact fun after h => hm _ (stripStart_eq_some_iff.mp h)
    rw [readPath, if_neg htext, hstrip, Option.getD_none, splitOn_displayPath hpath, mapM_readChild]

/-- A path that is written with the leading `m` is read back. -/
theorem readPath_pathText (path : DerivationPath) : readPath (pathText path) = .ok path := by
  by_cases hpath : path = []
  · subst hpath
    rfl
  · obtain ⟨c, rest, heq, -⟩ := displayPath_head hpath
    have hchars : ("m/" ++ displayPath path).toList = "m/".toList ++ c :: rest := by rw [String.toList_append, heq]
    have htext : ¬("m/" ++ displayPath path = "" ∨ "m/" ++ displayPath path = "m" ∨
        "m/" ++ displayPath path = "m/") := by
      rintro (h | h | h) <;> (rw [h] at hchars; cases hchars)
    have hstrip : stripStart "m/" ("m/" ++ displayPath path) = some (displayPath path) := by
      rw [stripStart_eq_some_iff, String.toList_append]
    rw [pathText, if_neg hpath, readPath, if_neg htext, hstrip, Option.getD_some, splitOn_displayPath hpath,
      mapM_readChild]

theorem displayPath_injective {path path' : DerivationPath} (h : displayPath path = displayPath path') :
    path = path' := by
  have hread := readPath_displayPath path
  rw [h, readPath_displayPath, Except.ok.injEq] at hread
  exact hread.symm

end EmvaultPkcs11
