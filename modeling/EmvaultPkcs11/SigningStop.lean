import EmvaultPkcs11.SigningOutcome

/-! Where a signing call stops. The rounds of the inputs before the one it stops in end well, so their
items are all signed. Of the failing round itself nothing is signed, unless it is that of a taproot input
with several leaves; then the leaves before the one that failed are. -/

open Effect Agenda

namespace EmvaultPkcs11

variable {K D X : Type}

/-! ### The leaf loop of a taproot input -/

/-- A taproot input that is signed leaf by leaf, with all that its leaf loop is given. -/
structure LeafLoop (signer : Pkcs11Signer K D) (crates : Crates D) (psbt : Psbt K) (inputIdx : Nat) where
  input : Input K
  taprootSigner : TaprootSigner K D
  ourXonly : XOnlyPublicKey
  leafHashes : List TapLeafHash
  fullPath : DerivationPath
  relativePath : DerivationPath
  prevouts : List TxOut
  sighashType : TapSighashType
  inputs_eq : psbt.inputs[inputIdx]? = some input
  routed : Pkcs11Signer.isTaproot input = true
  origin_eq : signer.ourTapOrigin input = some (ourXonly, leafHashes, fullPath)
  leaves_ne_nil : leafHashes ≠ []
  signer_eq : signer.backend.taprootSigner = some taprootSigner
  path_eq : signer.relativePath
    (s!"input {inputIdx} taproot BIP-32 path {displayPath fullPath} is shorter than this signer's " ++
      s!"federation path {displayPath signer.derivationPath}")
    fullPath = .ok relativePath
  prevouts_eq : Pkcs11Signer.allPrevouts psbt = .ok prevouts
  sighash_eq : Pkcs11Signer.tapSighashType crates input = .ok sighashType

namespace LeafLoop

variable {signer : Pkcs11Signer K D} {crates : Crates D} {psbt : Psbt K} {inputIdx : Nat}
  (loop : LeafLoop signer crates psbt inputIdx) (hsm : Hsm K D)

/-- The item of a leaf. -/
def item (leafHash : TapLeafHash) : Except BdkSignerError (Target D) :=
  Pkcs11Signer.leafItem crates psbt.unsignedTx inputIdx loop.relativePath loop.prevouts loop.sighashType
    loop.ourXonly loop.fullPath leafHash

/-- The round of a leaf, with the handle that signs for the input. -/
def round (handle : ObjectHandle) (leafHash : TapLeafHash) : SignM K (Psbt K) BdkSignerError Unit :=
  signer.signLeaf crates hsm loop.taprootSigner inputIdx loop.prevouts loop.sighashType handle loop.ourXonly
    loop.fullPath leafHash

theorem inputAgenda_eq :
    signer.inputAgenda crates psbt inputIdx = loop.leafHashes.map loop.item := by
  have hleaves : loop.leafHashes.isEmpty = false := by simpa using loop.leaves_ne_nil
  have hcontext : Pkcs11Signer.tapContext crates psbt loop.input =
      .ok (loop.prevouts, loop.sighashType) := by
    simp only [Pkcs11Signer.tapContext, loop.prevouts_eq, loop.sighash_eq]
    rfl
  simp only [Pkcs11Signer.inputAgenda, loop.inputs_eq, loop.routed, if_true, Pkcs11Signer.taprootAgenda,
    loop.origin_eq, hleaves, Bool.false_eq_true, if_false, loop.signer_eq, loop.path_eq,
    Pkcs11Signer.leavesAgenda, hcontext]
  rfl

end LeafLoop

/-- Only a taproot input with leaves has more than one item. -/
theorem exists_leafLoop {signer : Pkcs11Signer K D} {crates : Crates D} {psbt : Psbt K} {inputIdx : Nat}
    (h : 1 < (signer.inputAgenda crates psbt inputIdx).length) :
    Nonempty (LeafLoop signer crates psbt inputIdx) := by
  unfold Pkcs11Signer.inputAgenda at h
  cases hinput : psbt.inputs[inputIdx]? with
  | none => simp [hinput] at h
  | some input =>
      simp only [hinput] at h
      split at h
      case isFalse =>
          cases hrequest : signer.wshRequest crates psbt.unsignedTx inputIdx input with
          | error e => simp [hrequest, requestAgenda] at h
          | ok request => cases request <;> simp [hrequest, requestAgenda] at h
      case isTrue hrouted =>
          unfold Pkcs11Signer.taprootAgenda at h
          cases horigin : signer.ourTapOrigin input with
          | none => simp [horigin] at h
          | some origin =>
              obtain ⟨ourXonly, leafHashes, fullPath⟩ := origin
              simp only [horigin] at h
              split at h
              case isTrue => simp at h
              case isFalse hleaves =>
                  cases hsigner : signer.backend.taprootSigner with
                  | none => simp [hsigner] at h
                  | some taprootSigner =>
                      simp only [hsigner] at h
                      split at h
                      case h_1 => simp at h
                      case h_2 relativePath hpath =>
                          unfold Pkcs11Signer.leavesAgenda Pkcs11Signer.tapContext at h
                          cases hprevouts : Pkcs11Signer.allPrevouts psbt with
                          | error e => simp [hprevouts, bind, Except.bind] at h
                          | ok prevouts =>
                              cases hsighash : Pkcs11Signer.tapSighashType crates input with
                              | error e => simp [hprevouts, hsighash, bind, Except.bind] at h
                              | ok sighashType =>
                                  exact ⟨input, taprootSigner, ourXonly, leafHashes, fullPath,
                                    relativePath, prevouts, sighashType, hinput, hrouted, horigin,
                                    by simpa using hleaves, hsigner, hpath, hprevouts, hsighash⟩

/-! ### One round -/

/-- What the failing round of an input has signed: nothing, where it asks for one signature at most or
gets no key, and otherwise the leaves before the one that fails. -/
inductive StopsInInput (signer : Pkcs11Signer K D) (crates : Crates D) (hsm : Hsm K D) (inputIdx : Nat)
    (s : SignState K (Psbt K)) (e : Stop BdkSignerError) (s' : SignState K (Psbt K)) :
    List (Target D) → Prop where
  | single (h : (signer.inputAgenda crates s.transaction inputIdx).length ≤ 1) :
      StopsInInput signer crates hsm inputIdx s e s' []
  | underived (loop : LeafLoop signer crates s.transaction inputIdx)
      (h : (signer.signingHandle crates hsm BdkSignerError.external loop.relativePath).run s = .error e s') :
      StopsInInput signer crates hsm inputIdx s e s' []
  | leaf (loop : LeafLoop signer crates s.transaction inputIdx) {handle : ObjectHandle}
      {before : List TapLeafHash} {leafHash : TapLeafHash} {s₁ s₂ : SignState K (Psbt K)}
      {signed : List (Target D)}
      (hhandle : (signer.signingHandle crates hsm BdkSignerError.external loop.relativePath).run s =
        .ok handle s₁)
      (hstops : StopsIn (loop.round hsm handle) loop.leafHashes s₁ before leafHash s₂ e s')
      (hsigned : before.map loop.item = signed.map .ok) :
      StopsInInput signer crates hsm inputIdx s e s' signed

section

variable {signer : Pkcs11Signer K D} {crates : Crates D} {hsm : Hsm K D} {inputIdx : Nat}
  {s₀ s : SignState K (Psbt K)} {targets : List (Target D)}

/-- What one leaf adds. -/
theorem LeafLoop.wp_round (loop : LeafLoop signer crates s.transaction inputIdx) (handle : ObjectHandle)
    (leafHash : TapLeafHash) {s₁ : SignState K (Psbt K)}
    (htx : s₁.transaction.unsignedTx = s.transaction.unsignedTx)
    (h : Wrote crates hsm (fun _ _ => True) Psbt.insert s₀ targets s₁) :
    wp (loop.round hsm handle leafHash)
      (fun _ s' => Clean [loop.item leafHash] ∧
        Wrote crates hsm (fun _ _ => True) Psbt.insert s₀ (targets ++ granted [loop.item leafHash]) s')
      (fun _ s' => Wrote crates hsm (fun _ _ => True) Psbt.insert s₀ targets s') s₁ := by
  have hleaf := (SigningContract.trivial hsm signer).wp_signLeaf loop.signer_eq inputIdx loop.relativePath
    loop.prevouts loop.sighashType handle loop.ourXonly loop.fullPath leafHash h trivial
  rw [htx] at hleaf
  refine wp_mono hleaf (fun _ s' h' => ?_) (fun _ s' h' => ?_)
  · obtain ⟨target, htarget, hwrote, _⟩ := h'
    have hitem : loop.item leafHash = .ok target := htarget
    rw [hitem]
    exact ⟨by simp, by simpa using hwrote⟩
  · obtain ⟨more, hstops, hwrote, _⟩ := h'
    obtain ⟨item, rest, hsplit⟩ := hstops.exists_item
    have hnil : more = [] := by
      have := congrArg List.length hsplit
      simp only [List.length_cons, List.length_nil, List.length_append, List.length_map] at this
      exact List.length_eq_zero_iff.mp (by omega)
    rwa [hnil, List.append_nil] at hwrote

/-- The leaf loop signs leaf by leaf up to the one that fails. -/
theorem LeafLoop.wp_leaves (loop : LeafLoop signer crates s.transaction inputIdx) (handle : ObjectHandle)
    {s₁ : SignState K (Psbt K)} (h : Wrote crates hsm (fun _ _ => True) Psbt.insert s₀ targets s)
    (h₁ : Wrote crates hsm (fun _ _ => True) Psbt.insert s₀ targets s₁) :
    wp (loop.leafHashes.foldlM (fun _ leafHash => do
        let _ ← loop.round hsm handle leafHash
        pure true) false)
      (fun _ _ => True)
      (fun e s' => ∃ before leafHash s₂ signed,
        StopsIn (loop.round hsm handle) loop.leafHashes s₁ before leafHash s₂ e s' ∧
        before.map loop.item = signed.map .ok ∧
        Wrote crates hsm (fun _ _ => True) Psbt.insert s₀ (targets ++ signed) s') s₁ := by
  refine wp_mono (wp_foldlM_stopsIn (loop.round hsm handle) (fun _ _ => true) loop.leafHashes false s₁)
    (fun _ _ _ => trivial) (fun e s' h' => ?_)
  obtain ⟨before, leafHash, s₂, hstops⟩ := h'
  have hround (x : TapLeafHash) (done : List (Target D)) (t : SignState K (Psbt K))
      (ht : Wrote crates hsm (fun _ _ => True) Psbt.insert s₀ (targets ++ done) t) :=
    loop.wp_round handle x
      (((SigningContract.trivial hsm signer).wrote_unsignedTx ht).trans
        ((SigningContract.trivial hsm signer).wrote_unsignedTx h).symm) ht
  obtain ⟨hclean, hsigned⟩ := hstops.earlier.granted_of (fun x => [loop.item x])
    (fun done t => Wrote crates hsm (fun _ _ => True) Psbt.insert s₀ (targets ++ done) t)
    (fun x _ done t ht => wp_mono (hround x done t ht)
      (fun _ _ h' => ⟨h'.1, by rw [← List.append_assoc]; exact h'.2⟩) (fun _ _ _ => trivial))
    [] (by simpa using h₁)
  rw [← List.map_eq_flatMap] at hclean hsigned
  rw [List.nil_append] at hsigned
  have hwrote := wp_of_run_error (hround leafHash _ s₂ hsigned) hstops.fails
  exact ⟨before, leafHash, s₂, _, hstops, hclean.eq_map_ok, hwrote⟩

/-- A failing round of a taproot input with leaves. -/
theorem LeafLoop.wp_signInput (loop : LeafLoop signer crates s.transaction inputIdx)
    (h : Wrote crates hsm (fun _ _ => True) Psbt.insert s₀ targets s) :
    wp (signer.signInput crates hsm inputIdx) (fun _ _ => True)
      (fun e s' => ∃ signed, StopsInInput signer crates hsm inputIdx s e s' signed ∧
        (∃ item rest, signer.inputAgenda crates s.transaction inputIdx = signed.map .ok ++ item :: rest) ∧
        Wrote crates hsm (fun _ _ => True) Psbt.insert s₀ (targets ++ signed) s') s := by
  have hleaves : loop.leafHashes.isEmpty = false := by simpa using loop.leaves_ne_nil
  unfold Pkcs11Signer.signInput
  simp only [wp_bind, wp_get, loop.inputs_eq, loop.routed, if_true, Pkcs11Signer.signTaprootInput,
    loop.origin_eq, hleaves, Bool.false_eq_true, if_false, loop.signer_eq, loop.path_eq, wp_orErr]
  refine ⟨fun path hpath => ?_, fun e he => by cases he⟩
  obtain rfl := Except.ok.inj hpath
  unfold Pkcs11Signer.signLeaves
  rw [wp_bind]
  have hopen := (SigningContract.trivial hsm signer).wp_signingHandle
    BdkSignerError.external loop.relativePath h trivial
  refine wp_mono (wp_and hopen (wp_run_eq _ s)) (fun handle s₁ h₁ => ?_) (fun e s' h' => ?_)
  case refine_2 =>
      refine ⟨[], .underived loop h'.2, ?_, by simpa using h'.1.1⟩
      rw [loop.inputAgenda_eq]
      obtain ⟨leafHash, rest, hcons⟩ := List.exists_cons_of_ne_nil loop.leaves_ne_nil
      exact ⟨loop.item leafHash, rest.map loop.item, by simp [hcons]⟩
  obtain ⟨⟨hwrote, htx, _⟩, hrun⟩ := h₁
  simp only [wp_bind, wp_get, wp_orErr, htx, loop.prevouts_eq, loop.sighash_eq]
  refine ⟨fun prevouts hprevouts => ⟨fun sighashType hsighash => ?_, fun e he => by cases he⟩,
    fun e he => by cases he⟩
  obtain rfl := Except.ok.inj hprevouts
  obtain rfl := Except.ok.inj hsighash
  refine wp_mono (loop.wp_leaves handle h hwrote) (fun _ s' _ => ?_) (fun e s' h' => ?_)
  · have hrefl : Wrote crates hsm (SigningContract.trivial hsm signer).signed Psbt.insert s' [] s' := .refl s'
    have hholding : (SigningContract.trivial hsm signer).holding [] handle s'.machine := trivial
    exact wp_mono ((SigningContract.trivial hsm signer).wp_destroyChild hrefl hholding _)
      (fun _ _ _ => trivial) (fun _ _ he => he)
  · obtain ⟨before, leafHash, s₂, signed, hstops, hsigned, hwrote'⟩ := h'
    refine ⟨signed, .leaf loop hrun hstops hsigned, ?_, hwrote'⟩
    obtain ⟨after, hafter⟩ := hstops.next
    refine ⟨loop.item leafHash, after.map loop.item, ?_⟩
    rw [loop.inputAgenda_eq, ← hsigned, ← hafter]
    simp

variable (signer) in
/-- A failing round of `sign_transaction`. -/
theorem wp_signInput_stops (hidx : inputIdx < s.transaction.inputs.length)
    (h : Wrote crates hsm (fun _ _ => True) Psbt.insert s₀ targets s) :
    wp (signer.signInput crates hsm inputIdx) (fun _ _ => True)
      (fun e s' => ∃ signed, StopsInInput signer crates hsm inputIdx s e s' signed ∧
        (∃ item rest, signer.inputAgenda crates s.transaction inputIdx = signed.map .ok ++ item :: rest) ∧
        Wrote crates hsm (fun _ _ => True) Psbt.insert s₀ (targets ++ signed) s') s := by
  by_cases hsingle : (signer.inputAgenda crates s.transaction inputIdx).length ≤ 1
  · refine wp_mono ((SigningContract.trivial hsm signer).wp_signInput inputIdx hidx h trivial)
      (fun _ _ _ => trivial) (fun e s' h' => ?_)
    obtain ⟨more, hstops, hwrote, _⟩ := h'
    obtain ⟨item, rest, hsplit⟩ := hstops.exists_item
    have hnil : more = [] := by
      have := congrArg List.length hsplit
      simp only [List.length_append, List.length_map, List.length_cons] at this
      exact List.length_eq_zero_iff.mp (by omega)
    rw [hnil] at hsplit hwrote
    exact ⟨[], .single hsingle, ⟨item, rest, hsplit⟩, hwrote⟩
  · obtain ⟨loop⟩ := exists_leafLoop (Nat.lt_of_not_le hsingle)
    exact loop.wp_signInput h

end

end EmvaultPkcs11
