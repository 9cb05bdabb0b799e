import EmvaultPkcs11.SignatureEntries

/-! Whether a successful call leaves one of the signer's own keys unsigned. An input may list several keys of
one master. The signing paths take the first origin entry, in the order of the keys, that has the signer's
fingerprint, whatever its path is and whether it has leaves, and look no further. So a key of the signer is
signed if no smaller key of the input has the fingerprint, and is skipped in silence otherwise. A taproot
input that has neither an internal key nor leaf scripts does not even go through the path that signs
leaves. -/

open Effect Agenda

namespace EmvaultPkcs11

variable {K D X : Type}

namespace Pkcs11Signer

variable (signer : Pkcs11Signer K D) {crates : Crates D}

/-! ### What a clean agenda asks for -/

/-- The keys a PSBT input makes the signer sign under. -/
def asked (input : Input K) : List EntryKey :=
  if isTaproot input then
    match signer.ourTapOrigin input with
    | none => []
    | some (xonly, leafHashes, _) => leafHashes.map fun leafHash => .tapScriptSig ⟨xonly, leafHash⟩
  else
    match signer.ourOrigin input with
    | none => []
    | some (publicKey, _) => [.partialSig (.new publicKey)]

variable {signer}

theorem granted_leavesAgenda {psbt : Psbt K} {inputIdx : Nat} {input : Input K} {relativePath : DerivationPath}
    {xonly : XOnlyPublicKey} {leafHashes : List TapLeafHash} {fullPath : DerivationPath}
    (hclean : Clean (leavesAgenda crates psbt inputIdx input relativePath xonly leafHashes fullPath)) :
    (granted (leavesAgenda crates psbt inputIdx input relativePath xonly leafHashes fullPath)).map
        (fun target => (target.inputIdx, target.entryKey)) =
      (leafHashes.map fun leafHash => EntryKey.tapScriptSig ⟨xonly, leafHash⟩).map (inputIdx, ·) := by
  unfold leavesAgenda at hclean ⊢
  cases hcontext : tapContext crates psbt input with
  | error e =>
      rw [hcontext] at hclean
      exact absurd hclean (not_clean_error_cons e [])
  | ok context =>
      rw [hcontext] at hclean
      dsimp only at hclean ⊢
      clear hcontext
      induction leafHashes with
      | nil => rfl
      | cons leafHash leafHashes ih =>
          rw [List.map_cons] at hclean ⊢
          cases hitem : leafItem crates psbt.unsignedTx inputIdx relativePath context.1 context.2 xonly fullPath
              leafHash with
          | error e =>
              rw [hitem] at hclean
              exact absurd hclean (not_clean_error_cons e _)
          | ok target =>
              rw [hitem, clean_ok_cons] at hclean
              have htarget : target.inputIdx = inputIdx ∧
                  target.entryKey = .tapScriptSig ⟨xonly, leafHash⟩ := by
                unfold leafItem at hitem
                split at hitem
                · cases hitem
                · obtain rfl := Except.ok.inj hitem
                  exact ⟨rfl, rfl⟩
              rw [granted_ok_cons, List.map_cons, ih hclean, htarget.1, htarget.2, List.map_cons, List.map_cons]

theorem granted_requestAgenda {ε : Type} {inputIdx : Nat} {request : Except ε (Option (EcdsaRequest D))}
    (hclean : Clean (requestAgenda inputIdx request)) :
    ∃ asked, request = .ok asked ∧ (granted (requestAgenda inputIdx request)).map
        (fun target => (target.inputIdx, target.entryKey)) =
      (asked.map fun request => EntryKey.partialSig request.publicKey).toList.map (inputIdx, ·) := by
  cases request with
  | error e => exact absurd hclean (not_clean_error_cons e [])
  | ok asked =>
      refine ⟨asked, rfl, ?_⟩
      cases asked with
      | none => rfl
      | some request => rfl

theorem wshRequest_eq_none {tx : Transaction} {inputIdx : Nat} {input : Input K}
    (h : signer.wshRequest crates tx inputIdx input = .ok none) : signer.ourOrigin input = none := by
  unfold wshRequest at h
  split at h
  next horigin => exact horigin
  next =>
    obtain ⟨_, _, h⟩ := bind_eq_ok.mp h
    obtain ⟨_, _, h⟩ := bind_eq_ok.mp h
    obtain ⟨_, _, h⟩ := bind_eq_ok.mp h
    obtain ⟨_, _, h⟩ := bind_eq_ok.mp h
    obtain ⟨_, _, h⟩ := bind_eq_ok.mp h
    cases h

theorem granted_taprootAgenda {psbt : Psbt K} {inputIdx : Nat} {input : Input K}
    (htaproot : isTaproot input = true)
    (hclean : Clean (signer.taprootAgenda crates psbt inputIdx input)) :
    (granted (signer.taprootAgenda crates psbt inputIdx input)).map
        (fun target => (target.inputIdx, target.entryKey)) = (signer.asked input).map (inputIdx, ·) := by
  unfold taprootAgenda at hclean ⊢
  unfold asked
  rw [if_pos htaproot]
  cases horigin : signer.ourTapOrigin input with
  | none => rfl
  | some origin =>
      obtain ⟨xonly, leafHashes, fullPath⟩ := origin
      rw [horigin] at hclean
      dsimp only at hclean ⊢
      split
      next hempty => rw [List.isEmpty_iff.mp hempty]; rfl
      next hne =>
        rw [if_neg hne] at hclean
        split
        next hnone =>
          rw [hnone] at hclean
          exact absurd hclean (not_clean_error_cons _ [])
        next taprootSigner hsome =>
          rw [hsome] at hclean
          dsimp only at hclean
          split
          next e he =>
            rw [he] at hclean
            exact absurd hclean (not_clean_error_cons e [])
          next relativePath hrelative =>
            rw [hrelative] at hclean
            exact granted_leavesAgenda hclean

/-- A round without a rejected item signs under exactly the keys asked for. -/
theorem granted_inputAgenda {psbt : Psbt K} {inputIdx : Nat} {input : Input K}
    (hinput : psbt.inputs[inputIdx]? = some input)
    (hclean : Clean (signer.inputAgenda crates psbt inputIdx)) :
    (granted (signer.inputAgenda crates psbt inputIdx)).map
        (fun target => (target.inputIdx, target.entryKey)) = (signer.asked input).map (inputIdx, ·) := by
  have hagenda : signer.inputAgenda crates psbt inputIdx =
      if isTaproot input then signer.taprootAgenda crates psbt inputIdx input
      else requestAgenda inputIdx (signer.wshRequest crates psbt.unsignedTx inputIdx input) := by
    simp only [inputAgenda, hinput]
  rw [hagenda] at hclean ⊢
  by_cases htaproot : isTaproot input = true
  · rw [if_pos htaproot] at hclean ⊢
    exact granted_taprootAgenda htaproot hclean
  · rw [if_neg htaproot] at hclean ⊢
    obtain ⟨request, hrequest, hgranted⟩ := granted_requestAgenda hclean
    rw [hgranted, asked, if_neg htaproot]
    cases request with
    | none => rw [wshRequest_eq_none hrequest]; rfl
    | some request =>
        obtain ⟨pk, path, _, _, _, _, horigin, _, _, _, _, rfl⟩ := wshRequest_eq_some hrequest
        rw [horigin]
        rfl

/-- A clean agenda signs an input under a key exactly if the key is asked for. -/
theorem exists_granted_iff {psbt : Psbt K} (hclean : Clean (signer.agenda crates psbt)) {inputIdx : Nat}
    {input : Input K} (hinput : psbt.inputs[inputIdx]? = some input) (key : EntryKey) :
    (∃ target ∈ granted (signer.agenda crates psbt), target.inputIdx = inputIdx ∧ target.entryKey = key) ↔
      key ∈ signer.asked input := by
  have hrounds := (clean_flatMap _ _).mp hclean
  have hmem : (∃ target ∈ granted (signer.agenda crates psbt), target.inputIdx = inputIdx ∧
      target.entryKey = key) ↔ (inputIdx, key) ∈ (granted (signer.agenda crates psbt)).map
        fun target => (target.inputIdx, target.entryKey) := by
    simp only [List.mem_map, Prod.mk.injEq]
  rw [hmem, agenda, granted_flatMap hclean, List.map_flatMap, List.mem_flatMap]
  constructor
  · rintro ⟨i, hi, hkey⟩
    have hlt : i < psbt.inputs.length := List.mem_range.mp hi
    rw [granted_inputAgenda (List.getElem?_eq_getElem hlt) (hrounds i hi), List.mem_map] at hkey
    obtain ⟨key', hkey', heq⟩ := hkey
    obtain ⟨rfl, rfl⟩ := Prod.mk.inj heq
    rw [List.getElem?_eq_getElem hlt] at hinput
    rwa [Option.some.inj hinput] at hkey'
  · intro hkey
    obtain ⟨hlt, _⟩ := List.getElem?_eq_some_iff.mp hinput
    have hi := List.mem_range.mpr hlt
    refine ⟨inputIdx, hi, ?_⟩
    rw [granted_inputAgenda hinput (hrounds inputIdx hi)]
    exact List.mem_map_of_mem hkey

/-! ### The signer's own keys -/

variable (signer)

/-- The input has a taproot field, whichever it is. -/
def hasTaprootFields (input : Input K) : Bool :=
  input.tapInternalKey.isSome || !input.tapScripts.isEmpty || !input.tapKeyOrigins.isEmpty ||
    !input.tapScriptSigs.isEmpty || input.tapKeySig.isSome || input.tapMerkleRoot.isSome

/-- The keys of an input that are the signer's own by its fingerprint and path: each key of an input without
taproot fields is to get a signature, each taproot key one for each of its leaves. -/
def Owes (input : Input K) : EntryKey → Prop
  | .partialSig key => hasTaprootFields input = false ∧ key.compressed = true ∧ ∃ path,
      input.bip32Derivation[key.inner]? = some (signer.fingerprint, path) ∧ signer.derivationPath <+: path
  | .tapScriptSig key => ∃ leafHashes path,
      input.tapKeyOrigins[key.xonly]? = some (leafHashes, signer.fingerprint, path) ∧
        signer.derivationPath <+: path ∧ key.leafHash ∈ leafHashes

/-- The input goes through the path that signs under such keys. -/
def Routed (input : Input K) : EntryKey → Prop
  | .partialSig _ => isTaproot input = false
  | .tapScriptSig _ => isTaproot input = true

/-- No smaller key of the input has the signer's fingerprint. -/
def Foremost (input : Input K) : EntryKey → Prop
  | .partialSig key => ∀ publicKey path,
      input.bip32Derivation[publicKey]? = some (signer.fingerprint, path) → key.inner ≤ publicKey
  | .tapScriptSig key => ∀ xonly leafHashes path,
      input.tapKeyOrigins[xonly]? = some (leafHashes, signer.fingerprint, path) → key.xonly ≤ xonly

variable {signer}

theorem isTaproot_of_hasTaprootFields {input : Input K} (h : hasTaprootFields input = false) :
    isTaproot input = false := by
  simp only [hasTaprootFields, Bool.or_eq_false_iff] at h
  obtain ⟨⟨⟨⟨⟨hinternal, hscripts⟩, _⟩, _⟩, _⟩, _⟩ := h
  rw [isTaproot, hinternal, hscripts, Bool.or_false]

/-- Of the signer's own keys, the foremost on the input's path is asked for and no other. -/
theorem mem_asked_iff {input : Input K} {key : EntryKey} (howes : signer.Owes input key) :
    key ∈ signer.asked input ↔ Routed input key ∧ signer.Foremost input key := by
  cases key with
  | partialSig key =>
      obtain ⟨hfields, hcompressed, path, hentry, _⟩ := howes
      have hwsh := isTaproot_of_hasTaprootFields hfields
      rw [asked, if_neg (by simp [hwsh]), Routed, and_iff_right hwsh]
      constructor
      · intro hmem
        cases horigin : signer.ourOrigin input with
        | none => simp [horigin] at hmem
        | some origin =>
            obtain ⟨publicKey, path'⟩ := origin
            rw [horigin, List.mem_singleton, EntryKey.partialSig.injEq] at hmem
            rw [hmem]
            exact (ourOrigin_eq_some_iff.mp horigin).2
      · intro hforemost
        rw [ourOrigin_eq_some_iff.mpr ⟨hentry, hforemost⟩, List.mem_singleton, BitcoinPublicKey.new,
          ← hcompressed]
  | tapScriptSig key =>
      obtain ⟨leafHashes, path, hentry, _, hleaf⟩ := howes
      by_cases htaproot : isTaproot input = true
      · rw [asked, if_pos htaproot, Routed, and_iff_right htaproot]
        constructor
        · intro hmem
          cases horigin : signer.ourTapOrigin input with
          | none => simp [horigin] at hmem
          | some origin =>
              obtain ⟨xonly, leafHashes', path'⟩ := origin
              rw [horigin] at hmem
              obtain ⟨leafHash, _, heq⟩ := List.mem_map.mp hmem
              rw [← EntryKey.tapScriptSig.inj heq]
              exact (ourTapOrigin_eq_some_iff.mp horigin).2
        · intro hforemost
          rw [ourTapOrigin_eq_some_iff.mpr ⟨hentry, hforemost⟩]
          exact List.mem_map.mpr ⟨key.leafHash, hleaf, rfl⟩
      · -- on the other path there are no taproot signatures at all
        rw [asked, if_neg htaproot]
        refine ⟨fun hmem => ?_, fun h => absurd h.1 htaproot⟩
        cases horigin : signer.ourOrigin input with
        | none => simp [horigin] at hmem
        | some origin => simp [horigin] at hmem

end Pkcs11Signer

/-- After a call that returned `Ok` each of the signer's own keys has its signature exactly if each of them
had it before, or its input goes through the path for such keys and it is the first of the input's keys, in
their order, with the signer's fingerprint. -/
theorem own_keys_signed_iff (signer : Pkcs11Signer K D) (crates : Crates D) (hsm : Hsm K D) (serde : Serde)
    {s s' : SignState K (Psbt K)} (hrun : (signer.signTransaction crates hsm serde).run s = .ok () s') :
    (∀ inputIdx input, s.transaction.inputs[inputIdx]? = some input → ∀ key, signer.Owes input key →
      (s'.transaction.entry inputIdx key).isSome) ↔
    (∀ inputIdx input, s.transaction.inputs[inputIdx]? = some input → ∀ key, signer.Owes input key →
      (s.transaction.entry inputIdx key).isSome ∨
        (Pkcs11Signer.Routed input key ∧ signer.Foremost input key)) := by
  obtain ⟨_, hclean, hwrote⟩ := wp_of_run_ok
    ((SigningContract.trivial hsm signer).wp_signTransaction crates serde s trivial) hrun
  have hentry {inputIdx : Nat} {input : Input K} (hinput : s.transaction.inputs[inputIdx]? = some input)
      {key : EntryKey} (howes : signer.Owes input key) :
      (s'.transaction.entry inputIdx key).isSome ↔
        (s.transaction.entry inputIdx key).isSome ∨
          (Pkcs11Signer.Routed input key ∧ signer.Foremost input key) := by
    obtain ⟨hlt, _⟩ := List.getElem?_eq_some_iff.mp hinput
    have hfiles : (psbtView K).Files key := trivial
    have h := Wrote.entry_isSome_iff (psbtView K) hwrote hlt hfiles
    rw [Pkcs11Signer.exists_granted_iff hclean hinput, Pkcs11Signer.mem_asked_iff howes] at h
    exact h
  constructor
  · intro h inputIdx input hinput key howes
    exact (hentry hinput howes).mp (h inputIdx input hinput key howes)
  · intro h inputIdx input hinput key howes
    exact (hentry hinput howes).mpr (h inputIdx input hinput key howes)

namespace IdealVendor

/-- An input with origin entries for two keys of the signer. -/
def twoKeysInput : Input Key :=
  { wshInput [] none with
    bip32Derivation := ((∅ : BTreeMap PublicKey KeySource).insert (publicKey ⟨[7], [.normal 0]⟩)
      (fingerprint, [.normal 0])).insert (publicKey ⟨[7], [.normal 1]⟩) (fingerprint, [.normal 1]) }

/-- The entry for the key at a path. -/
def entryAt (path : DerivationPath) : EntryKey := .partialSig (.new (publicKey ⟨[7], path⟩))

/-- An input whose one taproot field is the origin entry of a key of the signer, with one leaf. -/
def originsOnlyInput : Input Key :=
  { wshInput [] none with
    bip32Derivation := ∅
    tapKeyOrigins := (∅ : BTreeMap XOnlyPublicKey (List TapLeafHash × KeySource)).insert 2
      ([3], fingerprint, [.normal 0]) }

theorem wshInput_asked (path entryPath : DerivationPath) (sighashType : Option UInt32) (key : EntryKey)
    (howes : (signer path).Owes (wshInput entryPath sighashType) key) :
    Pkcs11Signer.Routed (wshInput entryPath sighashType) key ∧
      (signer path).Foremost (wshInput entryPath sighashType) key := by
  have honly (publicKey' : PublicKey) (source : KeySource)
      (h : (wshInput entryPath sighashType).bip32Derivation[publicKey']? = some source) :
      publicKey ⟨[7], entryPath⟩ = publicKey' := by
    simp only [wshInput, Std.ExtTreeMap.getElem?_insert] at h
    split at h
    next heq => exact Std.LawfulEqOrd.eq_of_compare heq
    next => simp at h
  cases key with
  | tapScriptSig key =>
      obtain ⟨_, _, hentry, _⟩ := howes
      simp [wshInput] at hentry
  | partialSig key =>
      obtain ⟨hfields, _, path', hentry, _⟩ := howes
      refine ⟨Pkcs11Signer.isTaproot_of_hasTaprootFields hfields, fun publicKey' path'' h => ?_⟩
      rw [← honly _ _ hentry, ← honly _ _ h]

end IdealVendor

open IdealVendor in
/-- An input with one key of the signer gets its signature. -/
theorem only_key_signed :
    ∃ s', ((signer []).signTransaction crates token serde).run
        ⟨machine [], false, psbtOf [wshInput [.normal 0] none] [], []⟩ = .ok () s' ∧
      ∀ inputIdx input, (psbtOf [wshInput [.normal 0] none] []).inputs[inputIdx]? = some input →
        ∀ key, (signer []).Owes input key → (s'.transaction.entry inputIdx key).isSome := by
  cases hrun : ((signer []).signTransaction crates token serde).run
      ⟨machine [], false, psbtOf [wshInput [.normal 0] none] [], []⟩ with
  | error e s' =>
      have hsucceeds : completes (((signer []).signTransaction crates token serde).run
          ⟨machine [], false, psbtOf [wshInput [.normal 0] none] [], []⟩) = true := by decide +kernel
      rw [hrun] at hsucceeds
      cases hsucceeds
  | ok _ s' =>
      refine ⟨s', rfl, (own_keys_signed_iff (signer []) crates token serde hrun).mpr ?_⟩
      intro inputIdx input hinput key howes
      obtain rfl : input = wshInput [.normal 0] none := by
        have hmem := List.mem_of_getElem? hinput
        simpa [psbtOf] using hmem
      exact Or.inr (wshInput_asked [] [.normal 0] none key howes)

open IdealVendor in
/-- Of two keys of the signer, both below its federation path, the call signs the first and returns `Ok`. A
key with one leaf, in an input with no other taproot field, gets no signature, and the call returns `Ok`. -/
theorem second_key_left_unsigned :
    ((∀ index : Fin 2, (signer []).Owes twoKeysInput (entryAt [.normal (Fin.ofNat _ index.val)])) ∧
      (match ((signer []).signTransaction crates token serde).run
          ⟨machine [], false, psbtOf [twoKeysInput] [], []⟩ with
        | .ok _ s' => some ((s'.transaction.entry 0 (entryAt [.normal 0])).isSome,
            (s'.transaction.entry 0 (entryAt [.normal 1])).isSome)
        | .error _ _ => none) = some (true, false)) ∧
    (signer []).Owes originsOnlyInput (.tapScriptSig ⟨2, 3⟩) ∧
      (match ((signer []).signTransaction crates token serde).run
          ⟨machine [], false, psbtOf [originsOnlyInput] [], []⟩ with
        | .ok _ s' => some (s'.transaction.entry 0 (.tapScriptSig ⟨2, 3⟩)).isSome
        | .error _ _ => none) = some false := by
  refine ⟨⟨fun index => ⟨by decide, rfl, ?_⟩, by decide +kernel⟩, ?_, by decide +kernel⟩
  · fin_cases index
    · exact ⟨[.normal 0], by decide +kernel, List.nil_prefix⟩
    · exact ⟨[.normal 1], by decide +kernel, List.nil_prefix⟩
  · exact ⟨[3], [.normal 0], by decide +kernel, List.nil_prefix, List.mem_singleton_self _⟩

end EmvaultPkcs11
