import EmvaultPkcs11.LibraryWrites
import EmvaultPkcs11.SigningKey

/-! The signature maps entry by entry. A transaction is its unsigned part together with the signature each
input has under each key, and a signing call changes the second by writes only: after the call an entry
is the last one written under its key, or what it was before. -/

open Effect Agenda Writes

namespace EmvaultPkcs11

variable {K D X : Type}

/-- The signature an input has under a key. -/
def Input.entry (input : Input K) : EntryKey → Option (Insertion K)
  | .partialSig publicKey => input.partialSigs[publicKey]?.map (.partialSig publicKey)
  | .tapScriptSig key => input.tapScriptSigs[key]?.map (.tapScriptSig key.xonly key.leafHash)

def PsetInput.entry (input : PsetInput K) : EntryKey → Option (Signature K)
  | .partialSig publicKey => input.partialSigs[publicKey]?
  | .tapScriptSig _ => none

def Psbt.entry (psbt : Psbt K) (inputIdx : Nat) (key : EntryKey) : Option (Insertion K) :=
  psbt.inputs[inputIdx]?.bind fun input => input.entry key

def Pset.entry (pset : Pset K) (inputIdx : Nat) (key : EntryKey) : Option (Signature K) :=
  pset.inputs[inputIdx]?.bind fun input => input.entry key

/-- What a PSET input stores for an insertion: it has no taproot entries. -/
def Insertion.psetValue (elements : ElementsCrate K D X) : Insertion K → Option (Signature K)
  | .partialSig _ signature => some (derWithSighash elements signature)
  | .tapScriptSig _ _ _ => none

/-! ### One insertion -/

theorem Input.entry_insert (input : Input K) (insertion : Insertion K) (key : EntryKey) :
    (input.insert insertion).entry key =
      if insertion.entryKey = key then some insertion else input.entry key := by
  cases insertion with
  | partialSig publicKey signature =>
      cases key with
      | partialSig publicKey' =>
          simp only [Input.insert, Input.entry, Insertion.entryKey, Std.ExtTreeMap.getElem?_insert,
            Std.LawfulEqOrd.compare_eq_iff_eq, EntryKey.partialSig.injEq]
          split
          next heq => rw [heq, Option.map_some]
          next => rfl
      | tapScriptSig key => rfl
  | tapScriptSig xonly leafHash signature =>
      cases key with
      | partialSig publicKey => rfl
      | tapScriptSig key =>
          simp only [Input.insert, Input.entry, Insertion.entryKey, Std.ExtTreeMap.getElem?_insert,
            Std.LawfulEqOrd.compare_eq_iff_eq, EntryKey.tapScriptSig.injEq]
          split
          next heq => rw [← heq, Option.map_some]
          next => rfl

theorem PsetInput.entry_insert (elements : ElementsCrate K D X) (input : PsetInput K)
    (insertion : Insertion K) (key : EntryKey) :
    (input.insert elements insertion).entry key =
      (if insertion.entryKey = key then insertion.psetValue elements else none).or (input.entry key) := by
  cases insertion with
  | partialSig publicKey signature =>
      cases key with
      | partialSig publicKey' =>
          simp only [PsetInput.insert, PsetInput.entry, Insertion.entryKey, Insertion.psetValue,
            Std.ExtTreeMap.getElem?_insert, Std.LawfulEqOrd.compare_eq_iff_eq, EntryKey.partialSig.injEq]
          split <;> simp
      | tapScriptSig key => simp [PsetInput.entry, Insertion.entryKey]
  | tapScriptSig xonly leafHash signature => simp [PsetInput.insert, Insertion.psetValue]

/-! ### Transactions of both kinds -/

/-- How a kind of transaction is read entry by entry: it has a number of inputs and, for each input and
key, perhaps a signature and perhaps an origin entry; `Files` are the keys it has a place for. -/
structure EntryView (K T V : Type) (insert : T → Nat → Insertion K → T) where
  unsigned : T → T
  size : T → Nat
  entry : T → Nat → EntryKey → Option V
  origin : T → Nat → EntryKey → Option KeySource
  value : Insertion K → Option V
  Files : EntryKey → Prop
  unsigned_insert : ∀ tx i insertion, unsigned (insert tx i insertion) = unsigned tx
  size_unsigned : ∀ tx, size (unsigned tx) = size tx
  value_isSome : ∀ insertion, (value insertion).isSome ↔ Files insertion.entryKey
  entry_insert : ∀ tx i insertion j key, j < size tx → entry (insert tx i insertion) j key =
    (if i = j ∧ insertion.entryKey = key then value insertion else none).or (entry tx j key)
  entry_of_size_le : ∀ tx j key, size tx ≤ j → entry tx j key = none
  ext : ∀ tx tx', unsigned tx = unsigned tx' → (∀ j key, entry tx j key = entry tx' j key) → tx = tx'

namespace EntryView

variable {T V : Type} {insert : T → Nat → Insertion K → T} (view : EntryView K T V insert)

/-- Insert a signature with the index of its input. -/
def put (_ : EntryView K T V insert) (tx : T) (w : Nat × Insertion K) : T := insert tx w.1 w.2

/-- What a write puts under a key of an input, if it is one to that key. -/
def hit (j : Nat) (key : EntryKey) (w : Nat × Insertion K) : Option V :=
  if w.1 = j ∧ w.2.entryKey = key then view.value w.2 else none

theorem size_put (tx : T) (w : Nat × Insertion K) : view.size (view.put tx w) = view.size tx := by
  rw [← view.size_unsigned, put, view.unsigned_insert, view.size_unsigned]

theorem unsigned_foldl (ws : List (Nat × Insertion K)) :
    ∀ tx, view.unsigned (ws.foldl view.put tx) = view.unsigned tx := by
  induction ws with
  | nil => exact fun tx => rfl
  | cons w ws ih => exact fun tx => by rw [List.foldl_cons, ih, put, view.unsigned_insert]

/-- An entry after a list of writes. -/
theorem entry_foldl (ws : List (Nat × Insertion K)) (tx : T) {j : Nat} (hj : j < view.size tx)
    (key : EntryKey) :
    view.entry (ws.foldl view.put tx) j key = (last (view.hit j key) ws).or (view.entry tx j key) := by
  have hfits (tx : T) (w : Nat × Insertion K) (htx : j < view.size tx) : j < view.size (view.put tx w) := by
    rw [view.size_put]
    exact htx
  have hread (tx : T) (w : Nat × Insertion K) (htx : j < view.size tx) :
      view.entry (view.put tx w) j key = (view.hit j key w).or (view.entry tx j key) :=
    view.entry_insert tx w.1 w.2 j key htx
  exact read_foldl (fun tx => view.entry tx j key) hfits hread ws tx hj

theorem hit_isSome {j : Nat} {key : EntryKey} {w : Nat × Insertion K} :
    (view.hit j key w).isSome ↔ w.1 = j ∧ w.2.entryKey = key ∧ view.Files key := by
  unfold hit
  split
  next heq =>
    rw [view.value_isSome, heq.2]
    simp [heq]
  next hne =>
    constructor
    · intro h
      cases h
    · rintro ⟨hj, hkey, _⟩
      exact absurd ⟨hj, hkey⟩ hne

end EntryView

section

variable {T V : Type} {insert : T → Nat → Insertion K → T} (view : EntryView K T V insert) {hsm : Hsm K D}
  {crates : Crates D} {signed : Target D → Signature K → Prop} {s s' : SignState K T} {targets : List (Target D)}

/-- What a call has written, as a list of writes filed under the keys of its targets. -/
theorem Wrote.exists_writes (h : Wrote crates hsm signed insert s targets s') :
    ∃ ws : List (Nat × Insertion K), s'.transaction = ws.foldl view.put s.transaction ∧
      ws.map (fun w => (w.1, w.2.entryKey)) = targets.map fun target => (target.inputIdx, target.entryKey) := by
  obtain ⟨ws, hadvance, hanswers⟩ := h
  refine ⟨ws.map fun w => (w.inputIdx, w.insertion), ?_, ?_⟩
  · rw [hadvance.transaction, List.foldl_map]
    rfl
  · rw [List.map_map]
    clear hadvance
    induction hanswers with
    | nil => rfl
    | cons hanswer _ ih =>
        obtain ⟨hidx, sig, _, hinsertion⟩ := hanswer
        rw [List.map_cons, List.map_cons, ih]
        simp only [Function.comp_apply, hidx, hinsertion, Target.entryKey_insertion]

/-- After a call an input has a signature under a key if it had one before or the call was to make one. -/
theorem Wrote.entry_isSome_iff (h : Wrote crates hsm signed insert s targets s') {j : Nat} {key : EntryKey}
    (hj : j < view.size s.transaction) (hfiles : view.Files key) :
    (view.entry s'.transaction j key).isSome ↔ (view.entry s.transaction j key).isSome ∨
      ∃ target ∈ targets, target.inputIdx = j ∧ target.entryKey = key := by
  obtain ⟨ws, htransaction, hkeys⟩ := h.exists_writes view
  rw [htransaction, view.entry_foldl ws _ hj, Option.isSome_or, Bool.or_eq_true, last_isSome_iff, or_comm]
  have hmem : (∃ w ∈ ws, (view.hit j key w).isSome) ↔ (j, key) ∈ ws.map fun w => (w.1, w.2.entryKey) := by
    simp only [view.hit_isSome, hfiles, and_true, List.mem_map, Prod.mk.injEq]
  rw [hmem, hkeys]
  simp only [List.mem_map, Prod.mk.injEq]

/-- A call leaves alone what none of its targets is filed under. -/
theorem Wrote.entry_eq (h : Wrote crates hsm signed insert s targets s') {j : Nat} {key : EntryKey}
    (hnone : ∀ target ∈ targets, target.inputIdx = j → target.entryKey ≠ key) :
    view.entry s'.transaction j key = view.entry s.transaction j key := by
  obtain ⟨ws, htransaction, hkeys⟩ := h.exists_writes view
  by_cases hj : j < view.size s.transaction
  · have hlast : last (view.hit j key) ws = none := by
      rw [last_eq_none_iff]
      intro w hw
      rw [← Option.not_isSome_iff_eq_none, view.hit_isSome]
      rintro ⟨hidx, hkey, _⟩
      have hmem : (j, key) ∈ targets.map fun target => (target.inputIdx, target.entryKey) := by
        rw [← hkeys, ← hidx, ← hkey]
        exact List.mem_map_of_mem hw
      obtain ⟨target, htarget, heq⟩ := List.mem_map.mp hmem
      obtain ⟨hidx', hkey'⟩ := Prod.mk.inj heq
      exact hnone target htarget hidx' hkey'
    rw [htransaction, view.entry_foldl ws _ hj, hlast, Option.none_or]
  · have hsize : view.size s'.transaction ≤ j := by
      rw [htransaction, ← view.size_unsigned, view.unsigned_foldl, view.size_unsigned]
      omega
    rw [view.entry_of_size_le _ _ _ hsize, view.entry_of_size_le _ _ _ (by omega)]

theorem Wrote.unsigned_eq (h : Wrote crates hsm signed insert s targets s') :
    view.unsigned s'.transaction = view.unsigned s.transaction :=
  h.view view.unsigned_insert

end

/-! ### PSBTs -/

theorem Psbt.entry_insert (psbt : Psbt K) (i : Nat) (insertion : Insertion K) (j : Nat) (key : EntryKey)
    (hj : j < psbt.inputs.length) :
    (psbt.insert i insertion).entry j key =
      (if i = j ∧ insertion.entryKey = key then some insertion else none).or (psbt.entry j key) := by
  simp only [Psbt.entry, Psbt.insert, List.getElem?_modify, List.getElem?_eq_getElem hj]
  by_cases hij : i = j
  · subst hij
    simp only [if_true, Option.map_eq_map, Option.map_some, Option.bind_some, Input.entry_insert, true_and]
    split <;> simp
  · simp [hij]

theorem Input.ext_of_entries {input input' : Input K} (hunsigned : input.unsigned = input'.unsigned)
    (hentry : ∀ key, input.entry key = input'.entry key) : input = input' := by
  have hpartial : input.partialSigs = input'.partialSigs := by
    apply Std.ExtTreeMap.ext_getElem?
    intro publicKey
    have h := hentry (.partialSig publicKey)
    simp only [entry] at h
    exact Option.map_injective (fun _ _ heq => (Insertion.partialSig.inj heq).2) h
  have htap : input.tapScriptSigs = input'.tapScriptSigs := by
    apply Std.ExtTreeMap.ext_getElem?
    intro key
    have h := hentry (.tapScriptSig key)
    simp only [entry] at h
    exact Option.map_injective (fun _ _ heq => (Insertion.tapScriptSig.inj heq).2.2) h
  cases input
  cases input'
  simp only [unsigned, mk.injEq] at hunsigned
  simp_all

/-- A list is its elements: two lists with the same images under `f` are the same if elements at the same
place with the same image are. -/
theorem eq_of_map_eq {α β : Type} {f : α → β} {l l' : List α} (hmap : l.map f = l'.map f)
    (heq : ∀ (i : Nat) (a a' : α), l[i]? = some a → l'[i]? = some a' → f a = f a' → a = a') : l = l' := by
  apply List.ext_getElem?
  intro i
  have hi : l[i]?.map f = l'[i]?.map f := by rw [← List.getElem?_map, hmap, List.getElem?_map]
  cases ha : l[i]? with
  | none =>
      rw [ha, Option.map_none] at hi
      exact (Option.map_eq_none_iff.mp hi.symm).symm
  | some a =>
      rw [ha, Option.map_some] at hi
      obtain ⟨a', ha', hf⟩ := Option.map_eq_some_iff.mp hi.symm
      rw [ha', heq i a a' ha ha' hf.symm]

theorem Psbt.ext_of_entries {psbt psbt' : Psbt K} (hunsigned : psbt.unsigned = psbt'.unsigned)
    (hentry : ∀ j key, psbt.entry j key = psbt'.entry j key) : psbt = psbt' := by
  obtain ⟨tx, inputs, outputs, rest⟩ := psbt
  obtain ⟨tx', inputs', outputs', rest'⟩ := psbt'
  simp only [unsigned, mk.injEq] at hunsigned
  obtain ⟨rfl, hinputs, rfl, rfl⟩ := hunsigned
  congr 1
  refine eq_of_map_eq hinputs fun i input input' hinput hinput' hinputUnsigned => ?_
  apply Input.ext_of_entries hinputUnsigned
  intro key
  have h := hentry i key
  simpa only [entry, hinput, hinput', Option.bind_some] using h

/-- A PSBT, entry by entry. -/
def psbtView (K : Type) : EntryView K (Psbt K) (Insertion K) Psbt.insert where
  unsigned := Psbt.unsigned
  size := fun psbt => psbt.inputs.length
  entry := Psbt.entry
  origin := Psbt.keyOrigin
  value := some
  Files _ := True
  unsigned_insert := Psbt.unsigned_insert
  size_unsigned := fun psbt => by simp only [Psbt.unsigned, List.length_map]
  value_isSome := by simp
  entry_insert := Psbt.entry_insert
  entry_of_size_le := fun psbt j key hj => by
    simp only [Psbt.entry, List.getElem?_eq_none hj, Option.bind_none]
  ext := fun _ _ => Psbt.ext_of_entries

/-! ### PSETs -/

theorem Pset.entry_insert (elements : ElementsCrate K D X) (pset : Pset K) (i : Nat)
    (insertion : Insertion K) (j : Nat) (key : EntryKey) (hj : j < pset.inputs.length) :
    (pset.insert elements i insertion).entry j key =
      (if i = j ∧ insertion.entryKey = key then insertion.psetValue elements else none).or
        (pset.entry j key) := by
  simp only [Pset.entry, Pset.insert, List.getElem?_modify, List.getElem?_eq_getElem hj]
  by_cases hij : i = j
  · subst hij
    simp only [if_true, Option.map_eq_map, Option.map_some, Option.bind_some, PsetInput.entry_insert,
      true_and]
  · simp [hij]

theorem PsetInput.ext_of_entries {input input' : PsetInput K} (hunsigned : input.unsigned = input'.unsigned)
    (hentry : ∀ key, input.entry key = input'.entry key) : input = input' := by
  have hpartial : input.partialSigs = input'.partialSigs := by
    apply Std.ExtTreeMap.ext_getElem?
    intro publicKey
    exact hentry (.partialSig publicKey)
  cases input
  cases input'
  simp only [unsigned, mk.injEq] at hunsigned
  simp_all

theorem Pset.ext_of_entries {pset pset' : Pset K} (hunsigned : pset.unsigned = pset'.unsigned)
    (hentry : ∀ j key, pset.entry j key = pset'.entry j key) : pset = pset' := by
  obtain ⟨inputs, outputs, rest⟩ := pset
  obtain ⟨inputs', outputs', rest'⟩ := pset'
  simp only [unsigned, mk.injEq] at hunsigned
  obtain ⟨hinputs, rfl, rfl⟩ := hunsigned
  congr 1
  refine eq_of_map_eq hinputs fun i input input' hinput hinput' hinputUnsigned => ?_
  apply PsetInput.ext_of_entries hinputUnsigned
  intro key
  have h := hentry i key
  simpa only [entry, hinput, hinput', Option.bind_some] using h

/-- A PSET, entry by entry: it has places for ECDSA signatures only. -/
def psetView (elements : ElementsCrate K D X) : EntryView K (Pset K) (Signature K) (Pset.insert elements) where
  unsigned := Pset.unsigned
  size := fun pset => pset.inputs.length
  entry := Pset.entry
  origin := Pset.keyOrigin
  value := Insertion.psetValue elements
  Files := fun key => ∃ publicKey, key = .partialSig publicKey
  unsigned_insert := Pset.unsigned_insert elements
  size_unsigned := fun pset => by simp only [Pset.unsigned, List.length_map]
  value_isSome := fun insertion => by cases insertion <;> simp [Insertion.psetValue, Insertion.entryKey]
  entry_insert := Pset.entry_insert elements
  entry_of_size_le := fun pset j key hj => by
    simp only [Pset.entry, List.getElem?_eq_none hj, Option.bind_none]
  ext := fun _ _ => Pset.ext_of_entries

end EmvaultPkcs11
