import EmvaultPkcs11.SigningCompleteness

/-! What a signing call leaves alone, however it ends: everything but the signature maps, and in these every
entry under a key that has no origin entry with the signer's fingerprint. No entry is removed. On success
`sign_pset` returns the number of inputs that list the signer, and each of them has a signature of it. -/

open Effect Agenda Writes

namespace EmvaultPkcs11

variable {K D X : Type}

/-- From `tx` to `tx'` nothing has changed but entries of the signature maps under keys that have an origin
entry with the fingerprint, and none of these has been removed. -/
structure EntryView.OwnEntriesOnly {T V : Type} {insert : T → Nat → Insertion K → T}
    (view : EntryView K T V insert) (fingerprint : Fingerprint) (tx tx' : T) : Prop where
  unsigned : view.unsigned tx' = view.unsigned tx
  kept : ∀ j key, (view.entry tx j key).isSome → (view.entry tx' j key).isSome
  foreign : ∀ j key, (∀ path, view.origin tx j key ≠ some (fingerprint, path)) →
    view.entry tx' j key = view.entry tx j key

theorem Wrote.ownEntriesOnly {T V : Type} {insert : T → Nat → Insertion K → T} (view : EntryView K T V insert)
    {hsm : Hsm K D} {crates : Crates D} {signed : Target D → Signature K → Prop} {s s' : SignState K T}
    {targets : List (Target D)} {fingerprint : Fingerprint}
    (h : Wrote crates hsm signed insert s targets s')
    (howner : ∀ target ∈ targets, ∃ path,
      view.origin s.transaction target.inputIdx target.entryKey = some (fingerprint, path)) :
    view.OwnEntriesOnly fingerprint s.transaction s'.transaction where
  unsigned := h.unsigned_eq view
  kept := by
    intro j key hentry
    by_cases hj : j < view.size s.transaction
    · obtain ⟨ws, htransaction, _⟩ := h.exists_writes view
      rw [htransaction, view.entry_foldl ws _ hj, Option.isSome_or, hentry, Bool.or_true]
    · rw [view.entry_of_size_le _ _ _ (by omega)] at hentry
      cases hentry
  foreign := by
    intro j key hforeign
    refine h.entry_eq view fun target htarget hidx hkey => ?_
    obtain ⟨path, horigin⟩ := howner target htarget
    rw [hidx, hkey] at horigin
    exact hforeign path horigin

section

variable {signer : Pkcs11Signer K D} {crates : Crates D} {hsm : Hsm K D} {serde : Serde}
  {elements : ElementsCrate K D X}

theorem signTransaction_ownEntriesOnly (s : SignState K (Psbt K)) :
    (psbtView K).OwnEntriesOnly signer.fingerprint s.transaction
      (after (signer.signTransaction crates hsm serde) s).transaction := by
  obtain ⟨done, hdone, hwrote⟩ :=
    (SigningContract.trivial hsm signer).signTransaction_wrotePart crates serde s trivial
  refine hwrote.ownEntriesOnly (psbtView K) fun target htarget => ?_
  obtain ⟨path, horigin, _⟩ :=
    Pkcs11Signer.keyOrigin_of_mem_agenda (mem_of_mem_granted (hdone.subset htarget))
  exact ⟨path, horigin⟩

theorem signPset_ownEntriesOnly (s : SignState K (Pset K)) :
    (psetView elements).OwnEntriesOnly signer.fingerprint s.transaction
      (after (signer.signPset crates elements hsm serde) s).transaction := by
  obtain ⟨done, hdone, hwrote⟩ :=
    (SigningContract.trivial hsm signer).signPset_wrotePart crates serde elements s trivial
  refine hwrote.ownEntriesOnly (psetView elements) fun target htarget => ?_
  obtain ⟨path, horigin, _⟩ :=
    Pkcs11Signer.keyOrigin_of_mem_psetAgenda (mem_of_mem_granted (hdone.subset htarget))
  exact ⟨path, horigin⟩

end

/-! ### The count -/

/-- A PSET input lists the signer: one of its key origins has the signer's fingerprint. -/
def Pkcs11Signer.Listed (signer : Pkcs11Signer K D) (input : PsetInput K) : Bool :=
  input.bip32Derivation.toList.any fun entry => entry.2.1 = signer.fingerprint

/-- Rounds that each give one item or none give as many as there are elements they give one for. -/
theorem length_flatMap_range {α β : Type} {l : List α} {test : α → Bool} {round : Nat → List β}
    (hround : ∀ i a, l[i]? = some a → (round i).length = if test a then 1 else 0) :
    ((List.range l.length).flatMap round).length = l.countP test := by
  induction l using List.reverseRecOn with
  | nil => rfl
  | append_singleton l a ih =>
      have hinit := ih fun i b hb => hround i b (by
        rw [List.getElem?_append_left (List.getElem?_eq_some_iff.mp hb).1, hb])
      have hlast := hround l.length a (by simp)
      rw [List.length_append, List.length_singleton, List.range_succ, List.flatMap_append, List.length_append,
        hinit, List.flatMap_singleton, hlast, List.countP_append, List.countP_singleton]

namespace Pkcs11Signer

variable {signer : Pkcs11Signer K D} {elements : ElementsCrate K D X}

theorem ourPsetOrigin_isSome (input : PsetInput K) :
    (signer.ourPsetOrigin input).isSome = signer.Listed input := by
  rw [ourPsetOrigin, Option.isSome_map, Listed, Bool.eq_iff_iff, List.find?_isSome, List.any_eq_true]

theorem psetRequest_eq_none {tx : X} {inputIdx : Nat} {input : PsetInput K}
    (h : signer.psetRequest elements tx inputIdx input = .ok none) : signer.ourPsetOrigin input = none := by
  unfold psetRequest at h
  split at h
  next horigin => exact horigin
  next =>
    obtain ⟨_, _, h⟩ := bind_eq_ok.mp h
    obtain ⟨_, _, h⟩ := bind_eq_ok.mp h
    obtain ⟨_, _, h⟩ := bind_eq_ok.mp h
    cases h

/-- A round without a rejected item signs the input once if it lists the signer, and else not. -/
theorem granted_psetInputAgenda {tx : X} {pset : Pset K} {inputIdx : Nat} {input : PsetInput K}
    (hinput : pset.inputs[inputIdx]? = some input)
    (hclean : Clean (signer.psetInputAgenda elements tx pset inputIdx)) :
    (granted (signer.psetInputAgenda elements tx pset inputIdx)).map
        (fun target => (target.inputIdx, target.entryKey)) =
      ((signer.ourPsetOrigin input).map fun origin => EntryKey.partialSig origin.1).toList.map
        (inputIdx, ·) := by
  have hagenda : signer.psetInputAgenda elements tx pset inputIdx =
      requestAgenda inputIdx (signer.psetRequest elements tx inputIdx input) := by
    simp only [psetInputAgenda, hinput]
  rw [hagenda] at hclean ⊢
  obtain ⟨request, hrequest, hgranted⟩ := granted_requestAgenda hclean
  rw [hgranted]
  cases request with
  | none => rw [psetRequest_eq_none hrequest]; rfl
  | some request =>
      obtain ⟨pk, path, horigin, rfl, _⟩ := psetRequest_eq_some hrequest
      rw [horigin]
      rfl

/-- A clean agenda has one item for each input that lists the signer. -/
theorem length_granted_psetInputsAgenda {tx : X} {pset : Pset K}
    (hclean : Clean (signer.psetInputsAgenda elements tx pset)) :
    (granted (signer.psetInputsAgenda elements tx pset)).length = pset.inputs.countP signer.Listed := by
  have hrounds := (clean_flatMap _ _).mp hclean
  rw [psetInputsAgenda, granted_flatMap hclean]
  refine length_flatMap_range fun i input hinput => ?_
  have hi := List.mem_range.mpr (List.getElem?_eq_some_iff.mp hinput).1
  have hlength := congrArg List.length (granted_psetInputAgenda hinput (hrounds i hi))
  rw [List.length_map, List.length_map] at hlength
  rw [hlength, ← ourPsetOrigin_isSome]
  cases signer.ourPsetOrigin input <;> rfl

/-- The items of a clean agenda are for the inputs that list the signer. -/
theorem exists_granted_of_listed {tx : X} {pset : Pset K}
    (hclean : Clean (signer.psetInputsAgenda elements tx pset)) {inputIdx : Nat} {input : PsetInput K}
    (hinput : pset.inputs[inputIdx]? = some input) (hlisted : signer.Listed input = true) :
    ∃ target ∈ granted (signer.psetInputsAgenda elements tx pset), target.inputIdx = inputIdx ∧
      ∃ publicKey path, target.entryKey = .partialSig publicKey ∧
        input.bip32Derivation[publicKey]? = some (signer.fingerprint, path) := by
  have hi := List.mem_range.mpr (List.getElem?_eq_some_iff.mp hinput).1
  have hround := granted_psetInputAgenda hinput ((clean_flatMap _ _).mp hclean inputIdx hi)
  rw [← ourPsetOrigin_isSome] at hlisted
  obtain ⟨⟨publicKey, path⟩, horigin⟩ := Option.isSome_iff_exists.mp hlisted
  have hmem : (inputIdx, EntryKey.partialSig publicKey) ∈
      (granted (signer.psetInputAgenda elements tx pset inputIdx)).map
        fun target => (target.inputIdx, target.entryKey) := by
    rw [hround, horigin]
    exact List.mem_singleton_self _
  obtain ⟨target, htarget, heq⟩ := List.mem_map.mp hmem
  obtain ⟨hidx, hkey⟩ := Prod.mk.inj heq
  refine ⟨target, ?_, hidx, publicKey, path, hkey, (ourPsetOrigin_eq_some_iff.mp horigin).1⟩
  rw [psetInputsAgenda, granted_flatMap hclean]
  exact List.mem_flatMap.mpr ⟨inputIdx, hi, htarget⟩

end Pkcs11Signer

/-- On success `sign_pset` returns how many inputs list the signer, and each of them has a signature under a
key with its fingerprint. -/
theorem signPset_count {signer : Pkcs11Signer K D} {crates : Crates D} {elements : ElementsCrate K D X}
    {hsm : Hsm K D} {serde : Serde} {s s' : SignState K (Pset K)} {count : Nat}
    (hrun : (signer.signPset crates elements hsm serde).run s = .ok count s') :
    count = s.transaction.inputs.countP signer.Listed ∧
      ∀ (inputIdx : Nat) (input : PsetInput K), s.transaction.inputs[inputIdx]? = some input →
        signer.Listed input = true → ∃ publicKey path,
          input.bip32Derivation[publicKey]? = some (signer.fingerprint, path) ∧
            (s'.transaction.entry inputIdx (.partialSig publicKey)).isSome := by
  obtain ⟨hclean, hcount, hwrote⟩ := wp_of_run_ok
    ((SigningContract.trivial hsm signer).wp_signPset crates serde elements s trivial) hrun
  unfold Pkcs11Signer.psetAgenda at hclean hcount hwrote
  cases hextract : elements.extractTx s.transaction with
  | error e =>
      rw [hextract] at hclean
      exact absurd hclean (not_clean_error_cons _ [])
  | ok tx =>
      rw [hextract] at hclean hcount hwrote
      dsimp only at hclean hcount hwrote
      refine ⟨hcount.trans (Pkcs11Signer.length_granted_psetInputsAgenda hclean), ?_⟩
      intro inputIdx input hinput hlisted
      obtain ⟨target, htarget, hidx, publicKey, path, hkey, horigin⟩ :=
        Pkcs11Signer.exists_granted_of_listed hclean hinput hlisted
      have hlt := (List.getElem?_eq_some_iff.mp hinput).1
      have hfiles : (psetView elements).Files (.partialSig publicKey) := ⟨_, rfl⟩
      have hentry := Wrote.entry_isSome_iff (psetView elements) hwrote hlt hfiles
      exact ⟨publicKey, path, horigin, hentry.mpr (Or.inr ⟨target, htarget, hidx, hkey⟩)⟩

/-- Whether they return `Ok` or an error, the signing calls change nothing but the signer's own entries of
the signature maps and remove none; and the count `sign_pset` returns is that of the inputs that list the
signer, which then have a signature of it. -/
theorem signing_changes_own_entries_only (signer : Pkcs11Signer K D) (crates : Crates D)
    (elements : ElementsCrate K D X) (hsm : Hsm K D) (serde : Serde) :
    (∀ s : SignState K (Psbt K), (psbtView K).OwnEntriesOnly signer.fingerprint s.transaction
      (after (signer.signTransaction crates hsm serde) s).transaction) ∧
    (∀ s : SignState K (Pset K), (psetView elements).OwnEntriesOnly signer.fingerprint s.transaction
      (after (signer.signPset crates elements hsm serde) s).transaction) ∧
    (∀ (s s' : SignState K (Pset K)) (count : Nat),
      (signer.signPset crates elements hsm serde).run s = .ok count s' →
      count = s.transaction.inputs.countP signer.Listed ∧
        ∀ (inputIdx : Nat) (input : PsetInput K), s.transaction.inputs[inputIdx]? = some input →
          signer.Listed input = true → ∃ publicKey path,
            input.bip32Derivation[publicKey]? = some (signer.fingerprint, path) ∧
              (s'.transaction.entry inputIdx (.partialSig publicKey)).isSome) :=
  ⟨signTransaction_ownEntriesOnly, signPset_ownEntriesOnly, fun _ _ _ hrun => signPset_count hrun⟩

namespace IdealVendor

/-- A PSET with one input of the signer and one of nobody. -/
def mixedPset : Pset Key :=
  ⟨[psetInput [], { psetInput [] with bip32Derivation := ∅ }], [], []⟩

end IdealVendor

open IdealVendor in
/-- The call that signs the first input and skips the second returns one. -/
theorem one_input_counted :
    ∃ s', ((signer []).signPset crates elements token serde).run ⟨machine [], false, mixedPset, []⟩ = .ok 1 s' ∧
      1 = mixedPset.inputs.countP (signer []).Listed := by
  cases hrun : ((signer []).signPset crates elements token serde).run ⟨machine [], false, mixedPset, []⟩ with
  | error e s' =>
      have hsucceeds : (match ((signer []).signPset crates elements token serde).run
          ⟨machine [], false, mixedPset, []⟩ with
        | .ok count _ => some count
        | .error _ _ => none) = some 1 := by decide +kernel
      rw [hrun] at hsucceeds
      cases hsucceeds
  | ok count s' =>
      have hcount : (match ((signer []).signPset crates elements token serde).run
          ⟨machine [], false, mixedPset, []⟩ with
        | .ok count _ => some count
        | .error _ _ => none) = some 1 := by decide +kernel
      rw [hrun] at hcount
      obtain rfl := Option.some.inj hcount
      exact ⟨s', rfl, ((signing_changes_own_entries_only (signer []) crates elements token serde).2.2 _ _ _ hrun).1⟩

end EmvaultPkcs11
