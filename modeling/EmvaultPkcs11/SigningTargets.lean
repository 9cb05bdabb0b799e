import EmvaultPkcs11.SigningAgenda

/-! What stands behind a target of an agenda: the origin entry its key and path come from, and the
message its digest is the digest of. -/

open Effect Agenda

namespace EmvaultPkcs11

variable {K D X : Type}

/-! ### The first entry with a fingerprint -/

/-- The first entry of a map that passes a test is the one with the smallest key. -/
theorem find?_toList_eq_some_iff {κ β : Type} [Ord κ] [Std.TransOrd κ] [Std.LawfulEqOrd κ]
    (map : BTreeMap κ β) (test : β → Bool) (k : κ) (v : β) :
    map.toList.find? (fun entry => test entry.2) = some (k, v) ↔
      map[k]? = some v ∧ test v = true ∧
        ∀ k' v', map[k']? = some v' → test v' = true → compare k' k ≠ .lt := by
  have forward {k : κ} {v : β} (h : map.toList.find? (fun entry => test entry.2) = some (k, v)) :
      map[k]? = some v ∧ test v = true ∧
        ∀ k' v', map[k']? = some v' → test v' = true → compare k' k ≠ .lt := by
    obtain ⟨htest, before, after, hlist, hbefore⟩ := List.find?_eq_some_iff_append.mp h
    have hmem : (k, v) ∈ map.toList := by simp [hlist]
    refine ⟨Std.ExtTreeMap.mem_toList_iff_getElem?_eq_some.mp hmem, htest, fun k' v' hv' htest' hlt => ?_⟩
    have hmem' : (k', v') ∈ before ++ (k, v) :: after := by
      rw [← hlist]
      exact Std.ExtTreeMap.mem_toList_iff_getElem?_eq_some.mpr hv'
    have hsorted := map.ordered_keys_toList
    rw [hlist, List.pairwise_append, List.pairwise_cons] at hsorted
    rcases List.mem_append.mp hmem' with hin | hin
    · simpa [htest'] using hbefore _ hin
    · rcases List.mem_cons.mp hin with heq | hin
      · rw [(Prod.mk.inj heq).1, Std.ReflOrd.compare_self] at hlt
        cases hlt
      · have hgt := hsorted.2.1.1 _ hin
        rw [Std.OrientedOrd.eq_swap, hgt] at hlt
        cases hlt
  refine ⟨forward, fun ⟨hv, htest, hfirst⟩ => ?_⟩
  have hmem := Std.ExtTreeMap.mem_toList_iff_getElem?_eq_some.mpr hv
  cases hfind : map.toList.find? (fun entry => test entry.2) with
  | none =>
      have hnone := List.find?_eq_none.mp hfind _ hmem
      exact absurd htest hnone
  | some found =>
      obtain ⟨k', v'⟩ := found
      obtain ⟨hv', htest', hfirst'⟩ := forward hfind
      have hnot := hfirst k' v' hv' htest'
      have hnot' := hfirst' k v hv htest
      have heq : compare k' k = .eq := by
        cases hcompare : compare k' k with
        | lt => exact absurd hcompare hnot
        | eq => rfl
        | gt =>
            rw [Std.OrientedOrd.eq_swap, hcompare] at hnot'
            exact absurd rfl hnot'
      obtain rfl := Std.LawfulEqOrd.eq_of_compare heq
      rw [Option.some.inj (hv.symm.trans hv')]

/-- The first entry with a fingerprint, in key order, and what is kept of it: an entry is the fingerprint with
what is kept. -/
theorem firstOrigin_eq_some_iff {κ β γ : Type} [Ord κ] [Std.TransOrd κ] [Std.LawfulEqOrd κ] (map : BTreeMap κ β)
    {fingerprintOf : β → Fingerprint} {rest : β → γ} {fingerprint : Fingerprint} {entryOf : γ → β}
    (hsource : ∀ v c, fingerprintOf v = fingerprint ∧ rest v = c ↔ v = entryOf c) (k : κ) (c : γ) :
    ((map.toList.find? fun entry => fingerprintOf entry.2 = fingerprint).map fun entry => (entry.1, rest entry.2)) =
        some (k, c) ↔
      map[k]? = some (entryOf c) ∧ ∀ k' c', map[k']? = some (entryOf c') → compare k' k ≠ .lt := by
  have hfirst (v : β) := find?_toList_eq_some_iff map (fun v => decide (fingerprintOf v = fingerprint)) k v
  simp only [decide_eq_true_eq] at hfirst
  constructor
  · intro h
    obtain ⟨⟨k', v⟩, hfind, heq⟩ := Option.map_eq_some_iff.mp h
    obtain ⟨rfl, rfl⟩ := Prod.mk.inj heq
    obtain ⟨hentry, hfingerprint, hleast⟩ := (hfirst v).mp hfind
    obtain hv := (hsource v (rest v)).mp ⟨hfingerprint, rfl⟩
    refine ⟨hv ▸ hentry, fun k' c' h' => hleast k' _ h' ?_⟩
    exact ((hsource (entryOf c') c').mpr rfl).1
  · rintro ⟨hentry, hleast⟩
    obtain ⟨hfingerprint, hrest⟩ := (hsource (entryOf c) c).mpr rfl
    have hfind := (hfirst (entryOf c)).mpr ⟨hentry, hfingerprint, fun k' v' hv' hfp => ?_⟩
    · rw [hfind, Option.map_some, hrest]
    · rw [(hsource v' (rest v')).mp ⟨hfp, rfl⟩] at hv'
      exact hleast k' _ hv'

namespace Pkcs11Signer

variable {signer : Pkcs11Signer K D} {crates : Crates D} {elements : ElementsCrate K D X}

/-! ### Origins -/

theorem ourOrigin_eq_some_iff {input : Input K} {publicKey : PublicKey} {path : DerivationPath} :
    signer.ourOrigin input = some (publicKey, path) ↔
      input.bip32Derivation[publicKey]? = some (signer.fingerprint, path) ∧
        ∀ publicKey' path', input.bip32Derivation[publicKey']? = some (signer.fingerprint, path') →
          publicKey ≤ publicKey' := by
  have hsource (source : KeySource) (path : DerivationPath) :
      source.1 = signer.fingerprint ∧ source.2 = path ↔ source = (signer.fingerprint, path) := by
    rw [Prod.ext_iff]
  have hfirst := firstOrigin_eq_some_iff input.bip32Derivation hsource publicKey path
  simp only [ne_eq, Nat.compare_eq_lt, Nat.not_lt] at hfirst
  exact hfirst

theorem ourTapOrigin_eq_some_iff {input : Input K} {xonly : XOnlyPublicKey} {leafHashes : List TapLeafHash}
    {path : DerivationPath} :
    signer.ourTapOrigin input = some (xonly, leafHashes, path) ↔
      input.tapKeyOrigins[xonly]? = some (leafHashes, signer.fingerprint, path) ∧
        ∀ xonly' leafHashes' path',
          input.tapKeyOrigins[xonly']? = some (leafHashes', signer.fingerprint, path') → xonly ≤ xonly' := by
  have hsource (source : List TapLeafHash × KeySource) (kept : List TapLeafHash × DerivationPath) :
      source.2.1 = signer.fingerprint ∧ (source.1, source.2.2) = kept ↔
        source = (kept.1, signer.fingerprint, kept.2) := by
    simp only [Prod.ext_iff]
    tauto
  have hfirst := firstOrigin_eq_some_iff input.tapKeyOrigins hsource xonly (leafHashes, path)
  simp only [Prod.forall, ne_eq, Nat.compare_eq_lt, Nat.not_lt] at hfirst
  exact hfirst

theorem ourPsetOrigin_eq_some_iff {input : PsetInput K} {publicKey : BitcoinPublicKey} {path : DerivationPath} :
    signer.ourPsetOrigin input = some (publicKey, path) ↔
      input.bip32Derivation[publicKey]? = some (signer.fingerprint, path) ∧
        ∀ publicKey' path', input.bip32Derivation[publicKey']? = some (signer.fingerprint, path') →
          compare publicKey' publicKey ≠ .lt := by
  have hsource (source : KeySource) (path : DerivationPath) :
      source.1 = signer.fingerprint ∧ source.2 = path ↔ source = (signer.fingerprint, path) := by
    rw [Prod.ext_iff]
  exact firstOrigin_eq_some_iff input.bip32Derivation hsource publicKey path

theorem relativePath_eq_ok {message : String} {path relative : DerivationPath}
    (h : signer.relativePath message path = .ok relative) :
    relative = path.drop signer.derivationPath.length := by
  unfold relativePath at h
  split at h
  · cases h
  · exact (Except.ok.inj h).symm

/-! ### Requests and leaves -/

/-- What stands behind a request of a P2WSH input. -/
theorem wshRequest_eq_some {tx : Transaction} {inputIdx : Nat} {input : Input K}
    {request : EcdsaRequest D} (h : signer.wshRequest crates tx inputIdx input = .ok (some request)) :
    ∃ pk path sighashType script utxo message, signer.ourOrigin input = some (pk, path) ∧
      wshSighashType crates input = .ok sighashType ∧ input.witnessScript = some script ∧
      input.witnessUtxo = some utxo ∧
      p2wshSignatureMessage tx inputIdx script utxo.value sighashType = .ok message ∧
      request = ⟨.new pk, path.drop signer.derivationPath.length, sighashType,
        crates.digest (.segwitV0 message)⟩ := by
  unfold wshRequest at h
  split at h
  · cases h
  next pk path horigin =>
    obtain ⟨relative, hrelative, h⟩ := bind_eq_ok.mp h
    obtain ⟨sighashType, hsighash, h⟩ := bind_eq_ok.mp h
    obtain ⟨script, hscript, h⟩ := bind_eq_ok.mp h
    obtain ⟨utxo, hutxo, h⟩ := bind_eq_ok.mp h
    obtain ⟨message, hmessage, h⟩ := bind_eq_ok.mp h
    have hscript' : input.witnessScript = some script := by
      unfold orExternal at hscript
      split at hscript <;> simp_all
    have hutxo' : input.witnessUtxo = some utxo := by
      unfold orExternal at hutxo
      split at hutxo <;> simp_all
    refine ⟨pk, path, sighashType, script, utxo, message, horigin, hsighash, hscript', hutxo',
      mapError_eq_ok.mp hmessage, ?_⟩
    rw [← relativePath_eq_ok hrelative]
    exact (Option.some.inj (Except.ok.inj h)).symm

/-- What stands behind a request of a PSET input. -/
theorem psetRequest_eq_some {tx : X} {inputIdx : Nat} {input : PsetInput K} {request : EcdsaRequest D}
    (h : signer.psetRequest elements tx inputIdx input = .ok (some request)) :
    ∃ pk path, signer.ourPsetOrigin input = some (pk, path) ∧ request.publicKey = pk ∧
      request.relativePath = path.drop signer.derivationPath.length := by
  unfold psetRequest at h
  split at h
  · cases h
  next pk path horigin =>
    obtain ⟨relative, hrelative, h⟩ := bind_eq_ok.mp h
    obtain ⟨script, _, h⟩ := bind_eq_ok.mp h
    obtain ⟨utxo, _, h⟩ := bind_eq_ok.mp h
    obtain rfl := Option.some.inj (Except.ok.inj h)
    refine ⟨pk, path, horigin, rfl, ?_⟩
    unfold psetRelativePath at hrelative
    split at hrelative
    · cases hrelative
    · exact (Except.ok.inj hrelative).symm

/-- What stands behind a target of a taproot input. -/
theorem mem_taprootAgenda {psbt : Psbt K} {inputIdx : Nat} {input : Input K} {target : Target D}
    (h : .ok target ∈ signer.taprootAgenda crates psbt inputIdx input) :
    ∃ xonly leaves path leafHash prevouts sighashType message,
      signer.ourTapOrigin input = some (xonly, leaves, path) ∧
      tapSighashType crates input = .ok sighashType ∧ allPrevouts psbt = .ok prevouts ∧
      taprootScriptSpendMessage psbt.unsignedTx inputIdx prevouts leafHash sighashType = .ok message ∧
      target = ⟨inputIdx, path.drop signer.derivationPath.length,
        .schnorr xonly leafHash sighashType path, crates.digest (.taproot message)⟩ := by
  unfold taprootAgenda at h
  split at h
  · cases h
  next xonly leaves path horigin =>
  split at h
  · cases h
  split at h
  · simp at h
  split at h
  · simp at h
  next relative hrelative =>
  unfold leavesAgenda at h
  split at h
  · simp at h
  next prevouts sighashType hcontext =>
  obtain ⟨prevouts', hprevouts, hcontext⟩ := bind_eq_ok.mp hcontext
  obtain ⟨sighashType', hsighash, hcontext⟩ := bind_eq_ok.mp hcontext
  obtain ⟨rfl, rfl⟩ := Prod.mk.inj (Except.ok.inj hcontext)
  obtain ⟨leafHash, _, hleaf⟩ := List.mem_map.mp h
  have hrelative' := relativePath_eq_ok hrelative
  unfold leafItem leafSighash at hleaf
  cases hmessage : taprootScriptSpendMessage psbt.unsignedTx inputIdx prevouts' leafHash sighashType' with
  | error e =>
      rw [hmessage] at hleaf
      cases hleaf
  | ok message =>
      rw [hmessage, hrelative'] at hleaf
      exact ⟨xonly, leaves, path, leafHash, prevouts', sighashType', message, horigin, hsighash, hprevouts,
        hmessage, (Except.ok.inj hleaf).symm⟩

theorem mem_requestAgenda {ε : Type} {inputIdx : Nat} {request : Except ε (Option (EcdsaRequest D))}
    {target : Target D} (h : .ok target ∈ requestAgenda inputIdx request) :
    ∃ r, request = .ok (some r) ∧ target = r.target inputIdx := by
  unfold requestAgenda at h
  split at h
  · simp at h
  · cases h
  · exact ⟨_, rfl, by simpa using h⟩

/-- A target of a PSBT belongs to one of its inputs. -/
theorem mem_agenda {psbt : Psbt K} {target : Target D} (h : .ok target ∈ signer.agenda crates psbt) :
    ∃ inputIdx input, psbt.inputs[inputIdx]? = some input ∧
      ((isTaproot input = true ∧ .ok target ∈ signer.taprootAgenda crates psbt inputIdx input) ∨
        (isTaproot input = false ∧ ∃ request,
          signer.wshRequest crates psbt.unsignedTx inputIdx input = .ok (some request) ∧
          target = request.target inputIdx)) := by
  obtain ⟨inputIdx, _, h⟩ := List.mem_flatMap.mp h
  unfold inputAgenda at h
  split at h
  · cases h
  next input hinput =>
    refine ⟨inputIdx, input, hinput, ?_⟩
    split at h
    next htaproot => exact Or.inl ⟨htaproot, h⟩
    next htaproot => exact Or.inr ⟨by simpa using htaproot, mem_requestAgenda h⟩

/-- A target of a PSET belongs to one of its inputs. -/
theorem mem_psetAgenda {pset : Pset K} {target : Target D} (h : .ok target ∈ signer.psetAgenda elements pset) :
    ∃ tx inputIdx input request, elements.extractTx pset = .ok tx ∧
      pset.inputs[inputIdx]? = some input ∧
      signer.psetRequest elements tx inputIdx input = .ok (some request) ∧
      target = request.target inputIdx := by
  unfold psetAgenda at h
  split at h
  · simp at h
  next tx htx =>
    obtain ⟨inputIdx, _, h⟩ := List.mem_flatMap.mp h
    unfold psetInputAgenda at h
    split at h
    · cases h
    next input hinput =>
      obtain ⟨request, hrequest, htarget⟩ := mem_requestAgenda h
      exact ⟨tx, inputIdx, input, request, htx, hinput, hrequest, htarget⟩

end Pkcs11Signer

/-! ### The entry a target is for -/

/-- The key of an entry of the signature maps of an input. -/
inductive EntryKey where
  | partialSig (publicKey : BitcoinPublicKey)
  | tapScriptSig (key : TapScriptKey)
  deriving DecidableEq

def Insertion.entryKey : Insertion K → EntryKey
  | .partialSig publicKey _ => .partialSig publicKey
  | .tapScriptSig xonly leafHash _ => .tapScriptSig ⟨xonly, leafHash⟩

/-- The key a target is to be filed under. -/
def Target.entryKey (target : Target D) : EntryKey :=
  match target.key with
  | .ecdsa publicKey _ => .partialSig publicKey
  | .schnorr xonly leafHash _ _ => .tapScriptSig ⟨xonly, leafHash⟩

@[simp] theorem Target.entryKey_insertion (crates : Crates D) (target : Target D) (sig : Signature K) :
    (target.insertion crates sig).entryKey = target.entryKey := by
  unfold Target.insertion Target.entryKey
  cases target.key <;> rfl

/-- The origin entry an input has for the key of a signature entry. -/
def Psbt.keyOrigin (psbt : Psbt K) (inputIdx : Nat) : EntryKey → Option KeySource
  | .partialSig publicKey => psbt.inputs[inputIdx]?.bind fun input => input.bip32Derivation[publicKey.inner]?
  | .tapScriptSig key => psbt.inputs[inputIdx]?.bind fun input => input.tapKeyOrigins[key.xonly]?.map Prod.snd

def Pset.keyOrigin (pset : Pset K) (inputIdx : Nat) : EntryKey → Option KeySource
  | .partialSig publicKey => pset.inputs[inputIdx]?.bind fun input => input.bip32Derivation[publicKey]?
  | .tapScriptSig _ => none

namespace Pkcs11Signer

variable {signer : Pkcs11Signer K D} {crates : Crates D} {elements : ElementsCrate K D X}

/-- The key a target is filed under has an entry with the signer's fingerprint, and the target is for
what is left of that entry's path. -/
theorem keyOrigin_of_mem_agenda {psbt : Psbt K} {target : Target D}
    (h : .ok target ∈ signer.agenda crates psbt) :
    ∃ path, psbt.keyOrigin target.inputIdx target.entryKey = some (signer.fingerprint, path) ∧
      target.relativePath = path.drop signer.derivationPath.length := by
  obtain ⟨inputIdx, input, hinput, h⟩ := mem_agenda h
  rcases h with ⟨_, htaproot⟩ | ⟨_, request, hrequest, rfl⟩
  · obtain ⟨xonly, leaves, path, leafHash, _, sighashType, _, horigin, _, _, _, rfl⟩ :=
      mem_taprootAgenda htaproot
    refine ⟨path, ?_, rfl⟩
    simp only [Target.entryKey, Psbt.keyOrigin, hinput, Option.bind_some, (ourTapOrigin_eq_some_iff.mp horigin).1,
      Option.map_some]
  · obtain ⟨pk, path, sighashType, _, _, _, horigin, _, _, _, _, rfl⟩ := wshRequest_eq_some hrequest
    refine ⟨path, ?_, rfl⟩
    simp only [EcdsaRequest.target, Target.entryKey, Psbt.keyOrigin, hinput, Option.bind_some,
      BitcoinPublicKey.new, (ourOrigin_eq_some_iff.mp horigin).1]

theorem keyOrigin_of_mem_psetAgenda {pset : Pset K} {target : Target D}
    (h : .ok target ∈ signer.psetAgenda elements pset) :
    ∃ path, pset.keyOrigin target.inputIdx target.entryKey = some (signer.fingerprint, path) ∧
      target.relativePath = path.drop signer.derivationPath.length := by
  obtain ⟨_, inputIdx, input, request, _, hinput, hrequest, rfl⟩ := mem_psetAgenda h
  obtain ⟨pk, path, horigin, hpk, hrelative⟩ := psetRequest_eq_some hrequest
  refine ⟨path, ?_, hrelative⟩
  simp only [EcdsaRequest.target, Target.entryKey, Pset.keyOrigin, hinput, Option.bind_some, hpk,
    (ourPsetOrigin_eq_some_iff.mp horigin).1]

end Pkcs11Signer

end EmvaultPkcs11
