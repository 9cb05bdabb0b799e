import EmvaultPkcs11.SigningRun

/-! From one signature to a whole call: the leaf loop of a taproot input, the input loop of a PSBT and
of a PSET, and what a call has written when it ends, for every contract. -/

open Effect Agenda

namespace EmvaultPkcs11

variable {K D X : Type}

/-- A part of an agenda that a failing derivation stops before its first item. -/
theorem stopsAt_map_nil {ε τ γ : Type} (refused : τ → Prop) (item : γ → Except ε τ) (l : List γ)
    (hne : l ≠ []) (hrefused : ∀ x t, item x = .ok t → refused t) : StopsAt refused (l.map item) [] := by
  cases l with
  | nil => exact absurd rfl hne
  | cons x l =>
      rw [List.map_cons]
      cases hitem : item x with
      | error e => exact Or.inr ⟨rfl, not_clean_error_cons _ _⟩
      | ok t => exact Or.inl ⟨t, by simp, hrefused x t hitem⟩

theorem stopsAt_error {ε τ : Type} (refused : τ → Prop) (e : ε) :
    StopsAt refused [(.error e : Except ε τ)] [] :=
  Or.inr ⟨rfl, not_clean_error_cons _ _⟩

namespace SigningContract

variable {hsm : Hsm K D} {signer : Pkcs11Signer K D} (contract : SigningContract hsm signer)
  {crates : Crates D}

/-! ### One round -/

section

variable {T ε : Type} {insert : T → Nat → Insertion K → T} {s₀ s : SignState K T}
  {targets : List (Target D)}

/-- What holds where a round of a loop over an agenda ends well. -/
def AfterRound (crates : Crates D) (insert : T → Nat → Insertion K → T) (s₀ : SignState K T)
    (targets : List (Target D)) (round : List (Except ε (Target D))) (signed : Bool)
    (s' : SignState K T) : Prop :=
  Clean round ∧ Wrote crates hsm contract.signed insert s₀ (targets ++ granted round) s' ∧
    contract.idle s'.machine ∧ (signed = true ↔ granted round ≠ [])

/-- What holds where a round stops. -/
def AfterStop {ε' : Type} (crates : Crates D) (insert : T → Nat → Insertion K → T) (s₀ : SignState K T)
    (targets : List (Target D)) (round : List (Except ε (Target D))) (e : Stop ε') (s' : SignState K T) :
    Prop :=
  ∃ more, StopsAt contract.refused round more ∧
    Wrote crates hsm contract.signed insert s₀ (targets ++ more) s' ∧ contract.idle s'.machine ∧
    (contract.calm → ∃ a, e = .err a)

theorem afterRound_nil (h : Wrote crates hsm contract.signed insert s₀ targets s)
    (hidle : contract.idle s.machine) :
    contract.AfterRound crates insert s₀ targets ([] : List (Except ε (Target D))) false s :=
  ⟨clean_nil, by simpa using h, hidle, by simp⟩

theorem afterStop_of_stopsAt_nil {ε' : Type} {round : List (Except ε (Target D))} {e : Stop ε'}
    (hstops : StopsAt contract.refused round [])
    (h : Wrote crates hsm contract.signed insert s₀ targets s) (hidle : contract.idle s.machine)
    (hcalm : contract.calm → ∃ a, e = .err a) :
    contract.AfterStop crates insert s₀ targets round e s :=
  ⟨[], hstops, by simpa using h, hidle, hcalm⟩

/-- An input with at most one request, in either signing path. -/
theorem wp_answer (fail : String → ε) (inputIdx : Nat) (request : Except ε (Option (EcdsaRequest D)))
    (h : Wrote crates hsm contract.signed insert s₀ targets s) (hidle : contract.idle s.machine) :
    wp (do
        let request ← orErr request
        match request with
        | none => pure false
        | some request => do
            let sig ← signer.signRequest crates hsm fail request
            putSignature hsm insert inputIdx (.partialSig request.publicKey ⟨sig, request.sighashType⟩)
            pure true : SignM K T ε Bool)
      (contract.AfterRound crates insert s₀ targets (requestAgenda inputIdx request))
      (contract.AfterStop crates insert s₀ targets (requestAgenda inputIdx request)) s := by
  rw [wp_bind, wp_orErr]
  refine ⟨fun request hrequest => ?_, fun e he => ?_⟩
  · rw [hrequest]
    cases request with
    | none => exact contract.afterRound_nil h hidle
    | some request =>
        refine wp_mono (contract.wp_answerRequest fail request inputIdx h hidle)
          (fun signed s' h' => ?_) (fun _ s' h' => ?_)
        · exact ⟨by simp [requestAgenda], h'.2.2, h'.2.1, by simp [requestAgenda, h'.1]⟩
        · exact ⟨[], Or.inl ⟨_, by simp [requestAgenda], h'.2.2.1⟩, by simpa using h'.1, h'.2.1, h'.2.2.2⟩
  · rw [he]
    exact contract.afterStop_of_stopsAt_nil (stopsAt_error _ _) h hidle fun _ => ⟨e, rfl⟩

end

/-! ### Rounds -/

/-- A loop whose rounds each work off their own part of the agenda, with `Counted` of what the loop returns. -/
theorem wp_rounds {T ε ε' β : Type} {insert : T → Nat → Insertion K → T} {s₀ s : SignState K T}
    {round : Nat → SignM K T ε' Bool} {asks : Nat → List (Except ε (Target D))} {next : β → Bool → β}
    (Counted : List (Target D) → β → Prop) {start : β} (todo : List Nat)
    (hround : ∀ i ∈ todo, ∀ done s', Wrote crates hsm contract.signed insert s₀ done s' →
      contract.idle s'.machine → wp (round i) (contract.AfterRound crates insert s₀ done (asks i))
        (contract.AfterStop crates insert s₀ done (asks i)) s')
    (hnext : ∀ i done b signed, Counted done b → (signed = true ↔ granted (asks i) ≠ []) →
      Counted (done ++ granted (asks i)) (next b signed))
    (h : Wrote crates hsm contract.signed insert s₀ [] s) (hidle : contract.idle s.machine)
    (hstart : Counted [] start) :
    wp (todo.foldlM (fun b i => do
        let signed ← round i
        pure (next b signed)) start)
      (fun b s' => Clean (todo.flatMap asks) ∧
        Wrote crates hsm contract.signed insert s₀ (granted (todo.flatMap asks)) s' ∧
        contract.idle s'.machine ∧ Counted (granted (todo.flatMap asks)) b)
      (contract.AfterStop crates insert s₀ [] (todo.flatMap asks)) s := by
  refine wp_mono (wp_foldlM_groups _ asks
    (fun done b s' => Wrote crates hsm contract.signed insert s₀ done s' ∧ contract.idle s'.machine ∧
      Counted done b)
    (fun done (e : Stop ε') s' => Wrote crates hsm contract.signed insert s₀ done s' ∧
      contract.idle s'.machine ∧ (contract.calm → ∃ a, e = .err a))
    contract.refused todo [] start s ⟨h, hidle, hstart⟩ (fun i hi done b s' hat => ?_))
    (fun _ _ h' => h') (fun _ _ h' => h')
  rw [wp_bind]
  refine wp_mono (hround i hi done s' hat.1 hat.2.1) (fun signed s'' h'' => ?_) (fun _ _ h'' => h'')
  obtain ⟨hclean, hwrote, hidle', hsigned⟩ := h''
  exact ⟨hclean, hwrote, hidle', hnext i done b signed hat.2.2 hsigned⟩

/-! ### PSBT inputs -/

section

variable {s₀ s : SignState K (Psbt K)} {targets : List (Target D)}

theorem wrote_unsignedTx (h : Wrote crates hsm contract.signed Psbt.insert s₀ targets s) :
    s.transaction.unsignedTx = s₀.transaction.unsignedTx :=
  h.view Psbt.unsignedTx_insert

theorem wrote_unsigned (h : Wrote crates hsm contract.signed Psbt.insert s₀ targets s) :
    s.transaction.unsigned = s₀.transaction.unsigned :=
  h.view Psbt.unsigned_insert

theorem wp_signLeaf {taprootSigner : TaprootSigner K D}
    (htaproot : signer.backend.taprootSigner = some taprootSigner) (inputIdx : Nat)
    (relativePath : DerivationPath) (prevouts : List TxOut) (sighashType : TapSighashType)
    (handle : ObjectHandle) (ourXonly : XOnlyPublicKey) (fullPath : DerivationPath)
    (leafHash : TapLeafHash) (h : Wrote crates hsm contract.signed Psbt.insert s₀ targets s)
    (hholding : contract.holding relativePath handle s.machine) :
    let item := Pkcs11Signer.leafItem crates s.transaction.unsignedTx inputIdx relativePath prevouts sighashType
      ourXonly fullPath leafHash
    wp (signer.signLeaf crates hsm taprootSigner inputIdx prevouts sighashType handle ourXonly fullPath
        leafHash)
      (fun _ s' => ∃ target, item = .ok target ∧
        Wrote crates hsm contract.signed Psbt.insert s₀ (targets ++ [target]) s' ∧
        contract.holding relativePath handle s'.machine)
      (contract.AfterStop crates Psbt.insert s₀ targets [item]) s := by
  unfold Pkcs11Signer.signLeaf
  simp only [wp_bind, wp_get, wp_orErr, Pkcs11Signer.leafItem]
  refine ⟨fun digest hdigest => ?_, fun e he => ?_⟩
  · have hsign := contract.signSchnorr taprootSigner htaproot
      ⟨inputIdx, relativePath, .schnorr ourXonly leafHash sighashType fullPath, digest⟩ ourXonly leafHash
      sighashType fullPath rfl handle s.machine hholding
    rw [hdigest]
    refine wp_mono (wp_onToken hsign h) (fun sig s₁ h₁ => ?_) (fun _ s' h' => ?_)
    · obtain ⟨hwrote, _, hholding', hsigned⟩ := h₁
      exact wp_mono (wp_putSignature hwrote hsigned hholding' _)
        (fun _ s' h' => ⟨_, rfl, h'.1, h'.2⟩) (fun _ _ he => he)
    · obtain ⟨hwrote, e', rfl, hidle, hrefused, hcalm⟩ := h'
      exact ⟨[], Or.inl ⟨_, by simp, hrefused⟩, by simpa using hwrote, hidle,
        fun h => Stop.exists_map_eq_err _ (hcalm h)⟩
  · rw [he]
    exact contract.afterStop_of_stopsAt_nil (stopsAt_error _ _) h (contract.idle_of_holding hholding)
      fun _ => ⟨e, rfl⟩

/-- The leaf loop holds the handle from leaf to leaf, and signs them in order. -/
theorem wp_leafLoop {taprootSigner : TaprootSigner K D}
    (htaproot : signer.backend.taprootSigner = some taprootSigner) (inputIdx : Nat)
    (relativePath : DerivationPath) (prevouts : List TxOut) (sighashType : TapSighashType)
    {handle : ObjectHandle} (ourXonly : XOnlyPublicKey) (fullPath : DerivationPath)
    (leafHashes : List TapLeafHash) (h : Wrote crates hsm contract.signed Psbt.insert s₀ targets s)
    (hholding : contract.holding relativePath handle s.machine) :
    let round := leafHashes.map (Pkcs11Signer.leafItem crates s.transaction.unsignedTx inputIdx relativePath
      prevouts sighashType ourXonly fullPath)
    wp (leafHashes.foldlM (fun _ leafHash => do
        signer.signLeaf crates hsm taprootSigner inputIdx prevouts sighashType handle ourXonly fullPath
          leafHash
        pure true) false)
      (fun signed s' => Clean round ∧
        Wrote crates hsm contract.signed Psbt.insert s₀ (targets ++ granted round) s' ∧
        contract.holding relativePath handle s'.machine ∧ (signed = true ↔ granted round ≠ []))
      (contract.AfterStop crates Psbt.insert s₀ targets round) s := by
  intro round
  let item := Pkcs11Signer.leafItem crates s.transaction.unsignedTx inputIdx relativePath prevouts
    sighashType ourXonly fullPath
  have hround : round = leafHashes.flatMap fun leafHash => [item leafHash] := List.map_eq_flatMap
  have hloop := wp_foldlM_groups (fun (_ : Bool) leafHash => do
      signer.signLeaf crates hsm taprootSigner inputIdx prevouts sighashType handle ourXonly fullPath
        leafHash
      pure true)
    (fun leafHash => [item leafHash])
    (fun done signed s' => Wrote crates hsm contract.signed Psbt.insert s₀ (targets ++ done) s' ∧
      contract.holding relativePath handle s'.machine ∧ (signed = true ↔ done ≠ []))
    (fun done (e : Stop BdkSignerError) s' =>
      Wrote crates hsm contract.signed Psbt.insert s₀ (targets ++ done) s' ∧ contract.idle s'.machine ∧
        (contract.calm → ∃ a, e = .err a))
    contract.refused leafHashes [] false s ⟨by simpa using h, hholding, by simp⟩
    (fun leafHash _ done signed s' hat => by
      have htx : s'.transaction.unsignedTx = s.transaction.unsignedTx := by
        rw [contract.wrote_unsignedTx hat.1, contract.wrote_unsignedTx h]
      have hleaf := contract.wp_signLeaf htaproot inputIdx relativePath prevouts sighashType handle
        ourXonly fullPath leafHash hat.1 hat.2.1
      rw [htx] at hleaf
      rw [wp_bind]
      refine wp_mono hleaf (fun _ s'' h'' => ?_) (fun _ s'' h'' => ?_)
      · obtain ⟨target, htarget, hwrote, hholding'⟩ := h''
        have hitem : item leafHash = .ok target := htarget
        rw [hitem]
        exact ⟨by simp, by simpa using hwrote, hholding', by simp⟩
      · obtain ⟨more, hstops, hwrote, hidle⟩ := h''
        exact ⟨more, hstops, by rwa [← List.append_assoc], hidle⟩)
  rwa [← hround] at hloop

/-- Without a handle the first leaf is not signed, whatever the later checks say. -/
theorem stopsAt_leavesAgenda {refused : Target D → Prop} {psbt : Psbt K}
    {inputIdx : Nat} {input : Input K} {relativePath : DerivationPath} {ourXonly : XOnlyPublicKey}
    {leafHashes : List TapLeafHash} {fullPath : DerivationPath} (hleaves : leafHashes ≠ [])
    (hrefused : ∀ target, target.relativePath = relativePath → refused target) :
    StopsAt refused (Pkcs11Signer.leavesAgenda crates psbt inputIdx input relativePath ourXonly leafHashes
      fullPath) [] := by
  unfold Pkcs11Signer.leavesAgenda
  cases Pkcs11Signer.tapContext crates psbt input with
  | error e => exact stopsAt_error _ _
  | ok context =>
      refine stopsAt_map_nil _ _ _ hleaves fun leafHash target htarget => hrefused target ?_
      simp only [Pkcs11Signer.leafItem] at htarget
      split at htarget <;> simp only [Except.ok.injEq, reduceCtorEq] at htarget
      rw [← htarget]

theorem wp_signLeaves {taprootSigner : TaprootSigner K D}
    (htaproot : signer.backend.taprootSigner = some taprootSigner) (inputIdx : Nat) (input : Input K)
    (relativePath : DerivationPath) (ourXonly : XOnlyPublicKey) (leafHashes : List TapLeafHash)
    (hleaves : leafHashes ≠ []) (fullPath : DerivationPath)
    (h : Wrote crates hsm contract.signed Psbt.insert s₀ targets s) (hidle : contract.idle s.machine) :
    let round := Pkcs11Signer.leavesAgenda crates s.transaction inputIdx input relativePath ourXonly
      leafHashes fullPath
    wp (signer.signLeaves crates hsm taprootSigner inputIdx input relativePath ourXonly leafHashes
        fullPath)
      (contract.AfterRound crates Psbt.insert s₀ targets round)
      (contract.AfterStop crates Psbt.insert s₀ targets round) s := by
  intro round
  unfold Pkcs11Signer.signLeaves
  rw [wp_bind]
  refine wp_mono (contract.wp_signingHandle _ relativePath h hidle) (fun handle s₁ h₁ => ?_)
    (fun _ s' h' => contract.afterStop_of_stopsAt_nil (stopsAt_leavesAgenda hleaves h'.2.2.1) h'.1 h'.2.1
      h'.2.2.2)
  obtain ⟨hwrote₁, htx, hholding⟩ := h₁
  have hidle₁ := contract.idle_of_holding hholding
  simp only [wp_bind, wp_get, wp_orErr, htx]
  refine ⟨fun prevouts hprevouts => ⟨fun sighashType hsighash => ?_, fun e he => ?_⟩, fun e he => ?_⟩
  · have hround : round = leafHashes.map (Pkcs11Signer.leafItem crates s₁.transaction.unsignedTx inputIdx
        relativePath prevouts sighashType ourXonly fullPath) := by
      simp only [round, Pkcs11Signer.leavesAgenda, Pkcs11Signer.tapContext, hprevouts, hsighash, htx]
      rfl
    rw [hround]
    refine wp_mono (contract.wp_leafLoop htaproot inputIdx relativePath prevouts sighashType ourXonly
      fullPath leafHashes hwrote₁ hholding) (fun signed s' h' => ?_) (fun _ s' h' => h')
    obtain ⟨hclean, hwrote', hholding', hsigned⟩ := h'
    refine wp_mono (contract.wp_destroyChild hwrote' hholding' _) (fun _ s'' h'' => ?_) (fun _ _ he => he)
    exact ⟨hclean, h''.1, h''.2, hsigned⟩
  · have hround : round = [.error e] := by
      simp only [round, Pkcs11Signer.leavesAgenda, Pkcs11Signer.tapContext, hprevouts, he]
      rfl
    rw [hround]
    exact contract.afterStop_of_stopsAt_nil (stopsAt_error _ _) hwrote₁ hidle₁ fun _ => ⟨e, rfl⟩
  · have hround : round = [.error e] := by
      simp only [round, Pkcs11Signer.leavesAgenda, Pkcs11Signer.tapContext, he]
      rfl
    rw [hround]
    exact contract.afterStop_of_stopsAt_nil (stopsAt_error _ _) hwrote₁ hidle₁ fun _ => ⟨e, rfl⟩

theorem wp_signTaprootInput (inputIdx : Nat) (input : Input K)
    (h : Wrote crates hsm contract.signed Psbt.insert s₀ targets s) (hidle : contract.idle s.machine) :
    wp (signer.signTaprootInput crates hsm inputIdx input)
      (contract.AfterRound crates Psbt.insert s₀ targets (signer.taprootAgenda crates s.transaction inputIdx input))
      (contract.AfterStop crates Psbt.insert s₀ targets
        (signer.taprootAgenda crates s.transaction inputIdx input)) s := by
  unfold Pkcs11Signer.signTaprootInput Pkcs11Signer.taprootAgenda
  cases signer.ourTapOrigin input with
  | none => exact contract.afterRound_nil h hidle
  | some origin =>
      obtain ⟨ourXonly, leafHashes, fullPath⟩ := origin
      dsimp only
      split
      case isTrue => exact contract.afterRound_nil h hidle
      case isFalse hleaves =>
          cases htaproot : signer.backend.taprootSigner with
          | none => exact contract.afterStop_of_stopsAt_nil (stopsAt_error _ _) h hidle fun _ => ⟨_, rfl⟩
          | some taprootSigner =>
              dsimp only
              rw [wp_bind, wp_orErr]
              refine ⟨fun relativePath hrelative => ?_, fun e he => ?_⟩
              · rw [hrelative]
                exact contract.wp_signLeaves htaproot inputIdx input relativePath ourXonly leafHashes
                  (by simpa using hleaves) fullPath h hidle
              · rw [he]
                exact contract.afterStop_of_stopsAt_nil (stopsAt_error _ _) h hidle fun _ => ⟨e, rfl⟩

/-- One round of the input loop of `sign_transaction`. -/
theorem wp_signInput (inputIdx : Nat) (hidx : inputIdx < s.transaction.inputs.length)
    (h : Wrote crates hsm contract.signed Psbt.insert s₀ targets s) (hidle : contract.idle s.machine) :
    wp (signer.signInput crates hsm inputIdx)
      (contract.AfterRound crates Psbt.insert s₀ targets (signer.inputAgenda crates s.transaction inputIdx))
      (contract.AfterStop crates Psbt.insert s₀ targets
        (signer.inputAgenda crates s.transaction inputIdx)) s := by
  unfold Pkcs11Signer.signInput Pkcs11Signer.inputAgenda
  simp only [wp_bind, wp_get]
  cases hinput : s.transaction.inputs[inputIdx]? with
  | none => exact absurd hidx (by simpa using hinput)
  | some input =>
      dsimp only
      split
      case isTrue => exact contract.wp_signTaprootInput inputIdx input h hidle
      case isFalse => exact contract.wp_answer _ inputIdx _ h hidle

/-- The input loop of `sign_transaction` works through the agenda of the PSBT. -/
theorem wp_inputLoop (h : Wrote crates hsm contract.signed Psbt.insert s₀ [] s)
    (hidle : contract.idle s.machine) :
    wp ((List.range s.transaction.inputs.length).foldlM (fun signedAny inputIdx => do
        let signed ← signer.signInput crates hsm inputIdx
        pure (signedAny || signed)) false)
      (contract.AfterRound crates Psbt.insert s₀ [] (signer.agenda crates s.transaction))
      (contract.AfterStop crates Psbt.insert s₀ [] (signer.agenda crates s.transaction)) s := by
  refine contract.wp_rounds (fun done signedAny => signedAny = true ↔ done ≠ []) _
    (fun inputIdx hidx done s' hwrote hidle' => ?_) (fun inputIdx done signedAny signed hany hsigned => ?_)
    h hidle (by simp)
  · have hunsigned : s'.transaction.unsigned = s.transaction.unsigned := by
      rw [contract.wrote_unsigned hwrote, contract.wrote_unsigned h]
    have hlength : s'.transaction.inputs.length = s.transaction.inputs.length := by
      have := congrArg (fun psbt : Psbt K => psbt.inputs.length) hunsigned
      simpa [Psbt.unsigned] using this
    rw [← signer.inputAgenda_congr crates hunsigned]
    exact contract.wp_signInput inputIdx (hlength ▸ List.mem_range.mp hidx) hwrote hidle'
  · simp only [Bool.or_eq_true, hany, hsigned, ne_eq, List.append_eq_nil_iff, not_and_or]

end

/-! ### PSET inputs -/

section

variable {elements : ElementsCrate K D X} {s₀ s : SignState K (Pset K)} {targets : List (Target D)}

theorem wrote_pset_unsigned (h : Wrote crates hsm contract.signed (Pset.insert elements) s₀ targets s) :
    s.transaction.unsigned = s₀.transaction.unsigned :=
  h.view (Pset.unsigned_insert elements)

/-- One round of the input loop of `sign_pset`. -/
theorem wp_signPsetInput (unsignedTx : X) (inputIdx : Nat)
    (hidx : inputIdx < s.transaction.inputs.length)
    (h : Wrote crates hsm contract.signed (Pset.insert elements) s₀ targets s)
    (hidle : contract.idle s.machine) :
    wp (signer.signPsetInput crates elements hsm unsignedTx inputIdx)
      (contract.AfterRound crates (Pset.insert elements) s₀ targets
        (signer.psetInputAgenda elements unsignedTx s.transaction inputIdx))
      (contract.AfterStop crates (Pset.insert elements) s₀ targets
        (signer.psetInputAgenda elements unsignedTx s.transaction inputIdx)) s := by
  unfold Pkcs11Signer.signPsetInput Pkcs11Signer.psetInputAgenda
  simp only [wp_bind, wp_get]
  cases hinput : s.transaction.inputs[inputIdx]? with
  | none => exact absurd hidx (by simpa using hinput)
  | some input => exact contract.wp_answer _ inputIdx _ h hidle

end

/-- A round asks for one signature at most. -/
theorem length_psetInputAgenda_le (signer : Pkcs11Signer K D) (elements : ElementsCrate K D X)
    (unsignedTx : X) (pset : Pset K) (inputIdx : Nat) :
    (signer.psetInputAgenda elements unsignedTx pset inputIdx).length ≤ 1 := by
  unfold Pkcs11Signer.psetInputAgenda
  cases pset.inputs[inputIdx]? with
  | none => simp
  | some input =>
      dsimp only
      cases signer.psetRequest elements unsignedTx inputIdx input with
      | error e => simp [requestAgenda]
      | ok request => cases request <;> simp [requestAgenda]

section

variable {elements : ElementsCrate K D X} {s₀ s : SignState K (Pset K)} {targets : List (Target D)}

/-- The input loop of `sign_pset` works through the agenda of the PSET and counts what it signs. -/
theorem wp_psetInputLoop (unsignedTx : X)
    (h : Wrote crates hsm contract.signed (Pset.insert elements) s₀ [] s)
    (hidle : contract.idle s.machine) :
    wp ((List.range s.transaction.inputs.length).foldlM (fun signed inputIdx => do
        let one ← signer.signPsetInput crates elements hsm unsignedTx inputIdx
        pure (if one then signed + 1 else signed)) 0)
      (fun signed s' => Clean (signer.psetInputsAgenda elements unsignedTx s.transaction) ∧
        Wrote crates hsm contract.signed (Pset.insert elements) s₀
          (granted (signer.psetInputsAgenda elements unsignedTx s.transaction)) s' ∧
        contract.idle s'.machine ∧
        signed = (granted (signer.psetInputsAgenda elements unsignedTx s.transaction)).length)
      (contract.AfterStop crates (Pset.insert elements) s₀ []
        (signer.psetInputsAgenda elements unsignedTx s.transaction)) s := by
  refine contract.wp_rounds (fun done signed => signed = done.length) _
    (fun inputIdx hidx done s' hwrote hidle' => ?_) (fun inputIdx done signed one hcount hone => ?_)
    h hidle rfl
  · have hunsigned : s'.transaction.unsigned = s.transaction.unsigned := by
      rw [contract.wrote_pset_unsigned hwrote, contract.wrote_pset_unsigned h]
    have hlength : s'.transaction.inputs.length = s.transaction.inputs.length := by
      have := congrArg (fun pset : Pset K => pset.inputs.length) hunsigned
      simpa [Pset.unsigned] using this
    rw [← signer.psetInputAgenda_congr elements hunsigned]
    exact contract.wp_signPsetInput unsignedTx inputIdx (hlength ▸ List.mem_range.mp hidx) hwrote hidle'
  · have hle := (length_granted_le _).trans
      (length_psetInputAgenda_le signer elements unsignedTx s.transaction inputIdx)
    rw [List.length_append, hcount]
    cases one with
    | false =>
        have hnil : granted (signer.psetInputAgenda elements unsignedTx s.transaction inputIdx) = [] := by
          simpa using hone
        simp [hnil]
    | true =>
        have hpos := List.length_pos_of_ne_nil (hone.mp rfl)
        simp only [if_true]
        omega

end

end SigningContract

end EmvaultPkcs11
