import EmvaultPkcs11.LibrarySearch
import EmvaultPkcs11.SlotSession

/-! Whether a slot selection depends on the order in which the library lists its slots (`resolve_slot`). A
slot number selects the same slot in every order. A label selects the first slot that has it, and a token
that cannot be asked ends the search, so a label is stable only if no slot has it, or if one slot has it and
every token can be asked. -/

namespace EmvaultPkcs11

/-! ### The search for a label -/

namespace Slot

/-- The library can tell the label of the slot's token. -/
def Readable (slot : Slot) : Prop := ∃ info, slot.tokenLabel = .ok info

/-- The slot's token has the label, up to surrounding whitespace. -/
def HasLabel (slot : Slot) (label : String) : Prop :=
  ∃ info, slot.tokenLabel = .ok info ∧ trim info = trim label

/-- How a slot decides the search for a label: against it, or for itself. -/
def verdict (label : String) (slot : Slot) : Option (Option Slot) :=
  match slot.tokenLabel with
  | .error _ => some none
  | .ok info => if trim info = trim label then some (some slot) else none

variable {slot found : Slot} {label : String}

theorem verdict_eq_none_iff : slot.verdict label = some none ↔ ¬slot.Readable := by
  unfold verdict Readable
  cases slot.tokenLabel with
  | error e => simp
  | ok info => by_cases htrim : trim info = trim label <;> simp [htrim]

theorem verdict_eq_some_iff : slot.verdict label = some (some found) ↔ slot.HasLabel label ∧ found = slot := by
  unfold verdict HasLabel
  cases slot.tokenLabel with
  | error e => simp
  | ok info =>
      by_cases htrim : trim info = trim label
      · simp [htrim, eq_comm]
      · simp [htrim]

end Slot

theorem toOption_findLabel (label : String) (slots : List Slot) :
    (findLabel label slots).toOption = (slots.findSome? (Slot.verdict label)).getD none := by
  induction slots with
  | nil => rfl
  | cons slot slots ih =>
      rw [findLabel, List.findSome?_cons, Slot.verdict]
      cases slot.tokenLabel with
      | error e => rfl
      | ok info =>
          by_cases htrim : trim info = trim label
          · simp [htrim, Except.mapError, bind, Except.bind, Except.toOption]
          · simp only [Except.mapError, bind, Except.bind, if_neg htrim]
            exact ih

/-! ### Resolving a slot -/

/-- The slots leave no choice to their order. -/
def SlotIdentifier.Settled : SlotIdentifier → List Slot → Prop
  | .slotId _, _ => True
  | .label wanted, slots => (∀ slot ∈ slots, ¬slot.HasLabel wanted) ∨
      (∀ slot ∈ slots, slot.Readable) ∧
        ∀ slot ∈ slots, ∀ slot' ∈ slots, slot.HasLabel wanted → slot'.HasLabel wanted → slot = slot'

theorem settled_label_iff {slots : List Slot} {label : String} :
    (∀ a ∈ slots, ∀ b ∈ slots, ∀ x y, a.verdict label = some x → b.verdict label = some y → x = y) ↔
      (SlotIdentifier.label label).Settled slots := by
  constructor
  · intro hagree
    by_cases hnone : ∀ slot ∈ slots, ¬slot.HasLabel label
    · exact Or.inl hnone
    push Not at hnone
    obtain ⟨slot, hslot, hlabel⟩ := hnone
    have hfor : slot.verdict label = some (some slot) := Slot.verdict_eq_some_iff.mpr ⟨hlabel, rfl⟩
    refine Or.inr ⟨fun other hother => ?_, fun a ha b hb halabel hblabel => ?_⟩
    · by_contra hunreadable
      have heq := hagree slot hslot other hother _ _ hfor (Slot.verdict_eq_none_iff.mpr hunreadable)
      cases heq
    · exact Option.some.inj (hagree a ha b hb _ _ (Slot.verdict_eq_some_iff.mpr ⟨halabel, rfl⟩)
        (Slot.verdict_eq_some_iff.mpr ⟨hblabel, rfl⟩))
  · rintro (hnone | ⟨hreadable, hunique⟩) a ha b hb x y hx hy
    · have hagainst {slot : Slot} (hslot : slot ∈ slots) {z : Option Slot}
          (hz : slot.verdict label = some z) : z = none := by
        cases z with
        | none => rfl
        | some found => exact absurd (Slot.verdict_eq_some_iff.mp hz).1 (hnone slot hslot)
      rw [hagainst ha hx, hagainst hb hy]
    · have hfor {slot : Slot} (hslot : slot ∈ slots) {z : Option Slot}
          (hz : slot.verdict label = some z) : slot.HasLabel label ∧ z = some slot := by
        cases z with
        | none => exact absurd (hreadable slot hslot) (Slot.verdict_eq_none_iff.mp hz)
        | some found =>
            obtain ⟨hlabel, rfl⟩ := Slot.verdict_eq_some_iff.mp hz
            exact ⟨hlabel, rfl⟩
      obtain ⟨halabel, rfl⟩ := hfor ha hx
      obtain ⟨hblabel, rfl⟩ := hfor hb hy
      rw [hunique a ha b hb halabel hblabel]

theorem toOption_resolveSlot_label (startUp : Except CryptokiError Unit) (slots : List Slot) (label : String) :
    (resolveSlot ⟨startUp, .ok slots⟩ (.label label)).toOption =
      (slots.findSome? (Slot.verdict label)).getD none := by
  cases slots with
  | nil => rfl
  | cons slot slots => exact toOption_findLabel label (slot :: slots)

theorem toOption_resolveSlot_slotId (startUp : Except CryptokiError Unit) (slots : List Slot) (id : UInt64) :
    (resolveSlot ⟨startUp, .ok slots⟩ (.slotId id)).toOption = slots.find? fun slot => slot.id = id := by
  cases slots with
  | nil => rfl
  | cons slot slots =>
      simp only [resolveSlot, Except.mapError, bind, Except.bind, List.isEmpty_cons, Bool.false_eq_true,
        if_false]
      cases (slot :: slots).find? fun slot => slot.id = id <;> rfl

/-- A slot selection is the same in every order of the slots exactly if they leave no choice to it. -/
theorem resolveSlot_stable_iff (startUp : Except CryptokiError Unit) {slots : List Slot}
    (hids : (slots.map Slot.id).Nodup) (ident : SlotIdentifier) :
    (∀ slots' : List Slot, slots'.Perm slots →
      (resolveSlot ⟨startUp, .ok slots'⟩ ident).toOption = (resolveSlot ⟨startUp, .ok slots⟩ ident).toOption) ↔
      ident.Settled slots := by
  cases ident with
  | label label =>
      simp only [toOption_resolveSlot_label]
      exact (Search.getD_findSome?_stable_iff (Slot.verdict label) none slots).trans settled_label_iff
  | slotId id =>
      refine iff_of_true (fun slots' hperm => ?_) trivial
      simp only [toOption_resolveSlot_slotId]
      symm
      apply List.find?_eq_find?_of_perm hperm.symm
      rintro a ⟨ha, hida⟩ b ⟨hb, hidb⟩
      simp only [decide_eq_true_eq] at hida hidb
      exact List.inj_on_of_nodup_map hids ha hb (hida.trans hidb.symm)

namespace IdealVendor

/-- A slot with a token of a given label. -/
def labelled (id : UInt64) (label : String) : Slot := ⟨id, .ok label, .ok (), fun _ => .ok (), id.toNat⟩

/-- A slot whose token cannot be asked. -/
def silent (id : UInt64) : Slot := { labelled id "" with tokenLabel := .error ⟨0x30⟩ }

end IdealVendor

open IdealVendor in
/-- Of two tokens with different labels the same one is selected in both orders. -/
theorem different_labels_stable :
    (∀ slots' : List Slot, slots'.Perm [labelled 0 "vault", labelled 1 "spare"] →
      (resolveSlot ⟨.ok (), .ok slots'⟩ (.label "vault")).toOption =
        (resolveSlot ⟨.ok (), .ok [labelled 0 "vault", labelled 1 "spare"]⟩ (.label "vault")).toOption) ↔
      (SlotIdentifier.label "vault").Settled [labelled 0 "vault", labelled 1 "spare"] :=
  resolveSlot_stable_iff (.ok ()) (by decide) (.label "vault")

open IdealVendor in
/-- Of two tokens with one label the first is selected, and a token that cannot be asked hides a later one. -/
theorem selection_depends_on_order :
    (resolveSlot ⟨.ok (), .ok [labelled 0 "vault", labelled 1 " vault"]⟩ (.label "vault")).toOption.map Slot.id =
      some 0 ∧
    (resolveSlot ⟨.ok (), .ok [labelled 1 " vault", labelled 0 "vault"]⟩ (.label "vault")).toOption.map Slot.id =
      some 1 ∧
    (resolveSlot ⟨.ok (), .ok [labelled 0 "vault", silent 1]⟩ (.label "vault")).toOption.map Slot.id = some 0 ∧
    (resolveSlot ⟨.ok (), .ok [silent 1, labelled 0 "vault"]⟩ (.label "vault")).toOption.map Slot.id = none := by
  decide +kernel

end EmvaultPkcs11
