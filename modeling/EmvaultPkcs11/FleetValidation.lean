import EmvaultPkcs11.Fleet
import EmvaultPkcs11.IdealVendor
import EmvaultPkcs11.LibrarySearch
import EmvaultPkcs11.PathText

/-! Which fleets `Fleet::validate` accepts. Members are compared by a text that joins vendor, library path, slot
and derivation path with bars, so members that differ can have the same text if a bar is part of a vendor or a
library path. The search itself is exact: what is reported is the first pair of members with the same text. -/

namespace EmvaultPkcs11

variable {K D : Type}

namespace FleetMember

/-- The components that tell members apart. -/
def target (m : FleetMember K D) : String × String × SlotIdentifier × DerivationPath :=
  (m.vendor, m.libraryPath, m.slot, m.derivationPath)

/-- The components before the derivation path, as one text. -/
def tokenText (m : FleetMember K D) : String := s!"{m.vendor}|{m.libraryPath}|{m.slot.display}"

/-- Different members with equal paths and one text for their tokens. -/
def Confused (m m' : FleetMember K D) : Prop :=
  m.target ≠ m'.target ∧ m.derivationPath = m'.derivationPath ∧ m.tokenText = m'.tokenText

end FleetMember

/-! ### Texts of members -/

theorem append_bar_inj {a b p q : List Char} (hp : '|' ∉ p) (hq : '|' ∉ q) (h : a ++ '|' :: p = b ++ '|' :: q) :
    a = b ∧ p = q := by
  rcases List.append_eq_append_iff.mp h with ⟨middle, rfl, heq⟩ | ⟨middle, rfl, heq⟩
  · cases middle with
    | nil => exact ⟨(List.append_nil a).symm, (List.cons.inj heq).2⟩
    | cons c middle =>
        obtain ⟨-, rfl⟩ := List.cons.inj heq
        exact absurd (List.mem_append_right middle List.mem_cons_self) hp
  · cases middle with
    | nil => exact ⟨List.append_nil b, (List.cons.inj heq).2.symm⟩
    | cons c middle =>
        obtain ⟨-, rfl⟩ := List.cons.inj heq
        exact absurd (List.mem_append_right middle List.mem_cons_self) hq

theorem bar_not_mem_displayPath (path : DerivationPath) : '|' ∉ (displayPath path).toList := by
  intro hmem
  have hchar := mem_displayPath hmem
  exact absurd hchar (by unfold SegmentChar; decide)

namespace Fleet

theorem toList_memberId (m : FleetMember K D) :
    (memberId m).toList = m.tokenText.toList ++ '|' :: (displayPath m.derivationPath).toList := by
  simp only [memberId, FleetMember.tokenText, String.toList_append, List.append_assoc]
  rfl

/-- Members have the same text exactly if they have the same components or are confused. -/
theorem memberId_eq_iff {m m' : FleetMember K D} :
    memberId m = memberId m' ↔ m.target = m'.target ∨ m.Confused m' := by
  constructor
  · intro h
    by_cases htarget : m.target = m'.target
    · exact Or.inl htarget
    · have hchars := congrArg String.toList h
      rw [toList_memberId, toList_memberId] at hchars
      obtain ⟨htoken, hpath⟩ := append_bar_inj (bar_not_mem_displayPath _) (bar_not_mem_displayPath _) hchars
      exact Or.inr ⟨htarget, displayPath_injective (String.toList_inj.mp hpath), String.toList_inj.mp htoken⟩
  · rintro (htarget | ⟨-, hpath, htoken⟩)
    · obtain ⟨hvendor, hlibrary, hslot, hpath⟩ : m.vendor = m'.vendor ∧ m.libraryPath = m'.libraryPath ∧
          m.slot = m'.slot ∧ m.derivationPath = m'.derivationPath := by
        simpa only [FleetMember.target, Prod.mk.injEq] using htarget
      rw [memberId, memberId, hvendor, hlibrary, hslot, hpath]
    · rw [← String.toList_inj, toList_memberId, toList_memberId, hpath, htoken]

/-! ### The search -/

section

variable (members : List (FleetMember K D))

/-- The members at two positions are related. -/
def At (R : FleetMember K D → FleetMember K D → Prop) (i j : Nat) : Prop :=
  ∃ m m', members[i]? = some m ∧ members[j]? = some m' ∧ R m m'

/-- The components of the members are equal. -/
def SameAt : Nat → Nat → Prop := At members fun m m' => m.target = m'.target

def ConfusedAt : Nat → Nat → Prop := At members FleetMember.Confused

/-- The error for two members. -/
def degenerate (i j : Nat) : Pkcs11Error :=
  .invalidConfig s!"degenerate fleet: cosigners {i} and {j} resolve to the same key"

variable {members}

theorem toList_degenerate (i j : Nat) :
    s!"degenerate fleet: cosigners {i} and {j} resolve to the same key".toList =
      "degenerate fleet: cosigners ".toList ++ ((toString i).toList ++ ' ' :: ("and ".toList ++
        ((toString j).toList ++ ' ' :: "resolve to the same key".toList))) := by
  simp only [String.toList_append, List.append_assoc]
  rfl

/-- The error tells which members collide. -/
theorem degenerate_inj {i j i' j' : Nat} (h : degenerate i j = degenerate i' j') : i = i' ∧ j = j' := by
  have hchars := congrArg String.toList (Pkcs11Error.invalidConfig.inj h)
  rw [toList_degenerate, toList_degenerate] at hchars
  have hspace (rest : List Char) : Numeral.Ends (' ' :: rest) := by
    intro c hc
    obtain rfl := Option.some.inj hc
    rfl
  obtain ⟨rfl, hrest⟩ := Numeral.append_inj (hspace _) (hspace _) (List.append_cancel_left hchars)
  obtain ⟨rfl, -⟩ := Numeral.append_inj (hspace _) (hspace _)
    (List.append_cancel_left (List.cons.inj hrest).2)
  exact ⟨rfl, rfl⟩

theorem collision_eq (members : List (FleetMember K D)) : collision (members.map memberId) =
    Search.firstPair members.length fun i j => (members.map memberId)[i]? = (members.map memberId)[j]? := by
  rw [collision, List.length_map]
  rfl

/-- Two positions have one text exactly if the members at them are the same or confused. -/
theorem memberIds_eq_iff {i j : Nat} (hi : i < members.length) (hj : j < members.length) :
    (members.map memberId)[i]? = (members.map memberId)[j]? ↔ SameAt members i j ∨ ConfusedAt members i j := by
  rw [List.getElem?_map, List.getElem?_map, List.getElem?_eq_getElem hi, List.getElem?_eq_getElem hj,
    Option.map_some, Option.map_some, Option.some.injEq, memberId_eq_iff]
  simp only [SameAt, ConfusedAt, At, List.getElem?_eq_getElem hi, List.getElem?_eq_getElem hj, Option.some.injEq,
    exists_and_left, exists_eq_left']

/-- The error names the first pair of members that are the same or confused. -/
theorem validate_error_iff {i j : Nat} : validate members = .error (degenerate i j) ↔
    Search.IsFirstPair members.length (fun i j => SameAt members i j ∨ ConfusedAt members i j) i j := by
  have hcollision : validate members = .error (degenerate i j) ↔
      collision (members.map memberId) = some (i, j) := by
    unfold validate
    cases collision (members.map memberId) with
    | none => exact iff_of_false nofun nofun
    | some pair =>
        constructor
        · intro h
          obtain ⟨rfl, rfl⟩ := degenerate_inj (Except.error.inj h)
          rfl
        · rintro ⟨⟩
          rfl
  rw [hcollision, collision_eq, Search.firstPair_eq_some_iff]
  apply Search.IsFirstPair.congr
  intro i j hlt hbound
  rw [decide_eq_true_eq, memberIds_eq_iff (by omega) hbound]

theorem validate_ok_iff : validate members = .ok () ↔
    ∀ i j, i < j → j < members.length → ¬(SameAt members i j ∨ ConfusedAt members i j) := by
  have hcollision : validate members = .ok () ↔ collision (members.map memberId) = none := by
    unfold validate
    cases collision (members.map memberId) <;> simp
  rw [hcollision, collision_eq, Search.firstPair_eq_none_iff]
  refine forall₄_congr fun i j hlt hbound => ?_
  rw [decide_eq_false_iff_not, memberIds_eq_iff (by omega) hbound]

theorem not_sameAt_of_confusedAt {i j : Nat} (h : ConfusedAt members i j) : ¬SameAt members i j := by
  rintro ⟨m, m', hi, hj, htarget⟩
  obtain ⟨n, n', hi', hj', hconfused⟩ := h
  rw [hi, Option.some.injEq] at hi'
  rw [hj, Option.some.injEq] at hj'
  subst hi' hj'
  exact hconfused.1 htarget

end

/-- Validation is exact exactly if every pair of confused members comes after a pair of members that are the
same. -/
theorem validate_exact_iff (members : List (FleetMember K D)) :
    ((∀ i j, validate members = .error (degenerate i j) ↔
        Search.IsFirstPair members.length (SameAt members) i j) ∧
      (validate members = .ok () ↔ ∀ i j, i < j → j < members.length → ¬SameAt members i j)) ↔
    ∀ i j, i < j → j < members.length → ConfusedAt members i j →
      ∃ i' j', Search.IsFirstPair members.length (SameAt members) i' j' ∧ (i' < i ∨ i' = i ∧ j' < j) := by
  simp only [validate_error_iff, validate_ok_iff, Search.forall_not_iff]
  rw [← Search.isFirstPair_or_iff fun i j => not_sameAt_of_confusedAt]
  exact and_iff_left_of_imp fun hfirst => forall₂_congr fun i j => not_congr (hfirst i j)

end Fleet

namespace IdealVendor

/-- A member of a vendor with a library. -/
def memberOf (vendor libraryPath : String) : FleetMember Key Digest :=
  ⟨vendor, "a", libraryPath, .label "slot", "pin", [.hardened 0], .bitcoin, fun _ => recipe.toHsmBackend crates,
    .deriveFromSeed []⟩

end IdealVendor

open IdealVendor Fleet in
/-- Two members with different vendors and libraries are rejected. -/
theorem different_members_rejected :
    validate [memberOf "a|b" "c", memberOf "a" "b|c"] = .error (degenerate 0 1) ∧
      ¬SameAt [memberOf "a|b" "c", memberOf "a" "b|c"] 0 1 := by
  constructor
  · decide +kernel
  · rintro ⟨m, m', ⟨⟩, ⟨⟩, htarget⟩
    exact absurd htarget (by decide)

end EmvaultPkcs11
