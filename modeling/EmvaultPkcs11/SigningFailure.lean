import EmvaultPkcs11.IdealVendor
import EmvaultPkcs11.SigningStop

/-! What a signing call that fails leaves in the caller's transaction. Each input's signature is put into
it as soon as it is made, so a call that stops in the round of an input leaves the signatures of the rounds
before it, and of a taproot input those of the leaves before the one that failed. It leaves nothing else,
and a call that the mutex or the policy turns away has changed nothing. -/

open Effect Agenda

namespace EmvaultPkcs11

variable {K D X : Type}

/-! ### How a call fails -/

section

variable {T ε α β γ : Type}

/-- The first part of a call has come to its end: only the recording of the signature rate is left. -/
def ReachesEnd (first : SignM K T ε α) (s : SignState K T) : Prop :=
  s.poisoned = false ∧ ∃ result s₁, first.run s = .ok result s₁

/-- The state the mutex is given back with: a panic poisons it. -/
def released (e : Stop ε) (s : SignState K T) : SignState K T :=
  match e with
  | .err _ => s
  | .panic _ => { s with poisoned := true }

@[simp] theorem released_transaction (e : Stop ε) (s : SignState K T) :
    (released e s).transaction = s.transaction := by
  cases e <;> rfl

/-- A call stops in the round of an input: the rounds of the inputs before it end well, and the
transaction gets the signatures they ask for (`earlier`) and those the failing round has made (`made`), in
this order. The item after these is the one it stops at. -/
def StopsAtInput (crates : Crates D) (hsm : Hsm K D) (insert : T → Nat → Insertion K → T)
    (round : Nat → SignM K T ε β) (asks : Nat → List (Except ε (Target D)))
    (StopsInRound : Nat → SignState K T → Stop ε → SignState K T → List (Target D) → Prop) (inputs : Nat)
    (s₀ s : SignState K T) (e : Stop ε) (s' : SignState K T) : Prop :=
  ∃ (inputIdx : Nat) (s₁ : SignState K T) (earlier made : List (Target D)),
    StopsIn round (List.range inputs) s (List.range inputIdx) inputIdx s₁ e s' ∧
    StopsInRound inputIdx s₁ e s' made ∧
    (List.range inputIdx).flatMap asks = earlier.map .ok ∧
    (∃ item rest, asks inputIdx = made.map .ok ++ item :: rest) ∧
    Wrote crates hsm (fun _ _ => True) insert s₀ (earlier ++ made) s'

/-- How a call that returns an error has ended: the mutex refused it, its `opening` (the loading of the
policy and what is checked before the first input) failed, it stopped in the round of an input, or it was
through with its inputs. -/
inductive FailedCall (refusal : ε) (opening : SignM K T ε α) (admitted : α → Prop)
    (Stopped : α → SignState K T → Stop ε → SignState K T → Prop) (ended : Prop) (s : SignState K T) :
    Stop ε → SignState K T → Prop where
  | locked (hlock : s.poisoned = true) : FailedCall refusal opening admitted Stopped ended s (.err refusal) s
  | turnedAway {e : Stop ε} {s₁ : SignState K T} (hlock : s.poisoned = false)
      (hopening : opening.run s = .error e s₁) (hsame : s₁.transaction = s.transaction) :
      FailedCall refusal opening admitted Stopped ended s e (released e s₁)
  | stopped {a : α} {e : Stop ε} {s₁ s' : SignState K T} (hlock : s.poisoned = false)
      (hopening : opening.run s = .ok a s₁) (hadmitted : admitted a) (hstops : Stopped a s₁ e s') :
      FailedCall refusal opening admitted Stopped ended s e (released e s')
  | ended {e : Stop ε} {s' : SignState K T} (h : ended) :
      FailedCall refusal opening admitted Stopped ended s e s'

/-- A loop over the inputs stops in one of its rounds. -/
theorem wp_loop_stops {crates : Crates D} {hsm : Hsm K D} {insert : T → Nat → Insertion K → T}
    {round : Nat → SignM K T ε β} {asks : Nat → List (Except ε (Target D))}
    {StopsInRound : Nat → SignState K T → Stop ε → SignState K T → List (Target D) → Prop} {inputs : Nat}
    {s s₁ : SignState K T} (hround : ∀ inputIdx < inputs, ∀ done t,
      Wrote crates hsm (fun _ _ => True) insert s done t →
      wp (round inputIdx)
        (fun _ t' => Clean (asks inputIdx) ∧
          Wrote crates hsm (fun _ _ => True) insert s (done ++ granted (asks inputIdx)) t')
        (fun e t' => ∃ made, StopsInRound inputIdx t e t' made ∧
          (∃ item rest, asks inputIdx = made.map .ok ++ item :: rest) ∧
          Wrote crates hsm (fun _ _ => True) insert s (done ++ made) t') t)
    (hwrote : Wrote crates hsm (fun _ _ => True) insert s [] s₁) (next : γ → β → γ) (start : γ) :
    wp ((List.range inputs).foldlM (fun sofar inputIdx => do
        let one ← round inputIdx
        pure (next sofar one)) start)
      (fun _ _ => True) (StopsAtInput crates hsm insert round asks StopsInRound inputs s s₁) s₁ := by
  refine wp_mono (wp_foldlM_stopsIn round next (List.range inputs) start s₁) (fun _ _ h => h)
    (fun e s' h' => ?_)
  obtain ⟨before, inputIdx, s₂, hstops⟩ := h'
  obtain ⟨rfl, hidx⟩ := eq_range_of_prefix hstops.next
  obtain ⟨hclean, hsigned⟩ := hstops.earlier.granted_of asks
    (fun done t => Wrote crates hsm (fun _ _ => True) insert s done t)
    (fun i hi done t ht => wp_mono (hround i ((List.mem_range.mp hi).trans hidx) done t ht)
      (fun _ _ h => h) (fun _ _ _ => trivial)) [] hwrote
  obtain ⟨made, hmade, hsplit, hwrote'⟩ := wp_of_run_error (hround inputIdx hidx _ s₂ hsigned) hstops.fails
  exact ⟨inputIdx, s₂, _, made, hstops, hmade, hclean.eq_map_ok, hsplit, hwrote'⟩

/-- Where a call that is made of an opening, a loop and an end fails. -/
theorem wp_withLock_failed (refusal : ε) {opening : SignM K T ε α} {loop : α → SignM K T ε β}
    (rest : β → SignM K T ε γ) {admitted : α → Prop} {Q : α → SignState K T → Prop}
    {Stopped : α → SignState K T → Stop ε → SignState K T → Prop} {s : SignState K T}
    (hopening : wp opening (fun a s₁ => admitted a ∧ Q a s₁) (fun _ s₁ => s₁.transaction = s.transaction) s)
    (hloop : ∀ a s₁, Q a s₁ → wp (loop a) (fun _ _ => True) (Stopped a s₁) s₁) :
    wp (withLock refusal ((opening >>= loop) >>= rest)) (fun _ _ => True)
      (FailedCall refusal opening admitted Stopped (ReachesEnd (opening >>= loop) s) s) s := by
  refine wp_withLock _ _ _ _ s .locked (fun hlock => ?_)
  have hfirst : wp (opening >>= loop) (fun _ _ => True) (fun e s' =>
      FailedCall refusal opening admitted Stopped (ReachesEnd (opening >>= loop) s) s e (released e s')) s := by
    rw [wp_bind]
    refine wp_mono (wp_and hopening (wp_run_eq opening s)) (fun a s₁ h₁ => ?_) (fun e s₁ h₁ => ?_)
    · exact wp_mono (hloop a s₁ h₁.1.2) (fun _ _ _ => trivial)
        fun e s' hstops => .stopped hlock h₁.2 h₁.1.1 hstops
    · exact .turnedAway hlock h₁.2 h₁.1
  rw [wp_bind]
  refine wp_mono (wp_and hfirst (wp_run_eq _ s)) (fun result s₁ h₁ => ?_) (fun e s' h' => ?_)
  · have hended : ReachesEnd (opening >>= loop) s := ⟨hlock, result, s₁, h₁.2⟩
    refine wp_mono (wp_run_eq (rest result) s₁) (fun _ _ _ => trivial) (fun e _ _ => ?_)
    cases e <;> exact .ended hended
  · cases e <;> exact h'.1

/-- A call that is refused or turned away leaves the transaction as it was. -/
theorem FailedCall.unchanged {refusal : ε} {opening : SignM K T ε α} {loop : α → SignM K T ε β}
    {admitted : α → Prop} {Stopped : α → SignState K T → Stop ε → SignState K T → Prop}
    {s s' : SignState K T} {e : Stop ε}
    (h : FailedCall refusal opening admitted Stopped (ReachesEnd (opening >>= loop) s) s e s')
    (haway : s.poisoned = true ∨ ∃ e s₁, opening.run s = .error e s₁) :
    s'.transaction = s.transaction := by
  have hnot (hlock : s.poisoned = false) {a : α} {s₁ : SignState K T} (hrun : opening.run s = .ok a s₁) :
      False := by
    rcases haway with hpoisoned | ⟨e, s₂, hfails⟩
    · rw [hlock] at hpoisoned
      cases hpoisoned
    · rw [hrun] at hfails
      cases hfails
  cases h with
  | locked hlock => rfl
  | turnedAway hlock hopening hsame => rw [released_transaction, hsame]
  | stopped hlock hopening hadmitted hstops => exact (hnot hlock hopening).elim
  | ended hended =>
      obtain ⟨hlock, result, s₁, hrun⟩ := hended
      cases hopening : opening.run s with
      | ok a s₂ => exact (hnot hlock hopening).elim
      | error e s₂ =>
          rw [EStateM.run_bind, hopening] at hrun
          cases hrun

end

/-! ### The parts of the two calls -/

namespace Pkcs11Signer

variable (signer : Pkcs11Signer K D) (crates : Crates D) (elements : ElementsCrate K D X)
  (hsm : Hsm K D) (serde : Serde)

/-- What `sign_transaction` does before its first input: load the policy and check the PSBT against it. -/
def admission : SignM K (Psbt K) BdkSignerError MinimalHsmPolicy := do
  let policy ← onToken hsm (fun e => .external (e.toText crates)) (loadPolicy serde signer.label)
  let psbt := (← get).transaction
  ofResult ((policy.checkAgainstPsbt crates psbt signer.network).mapError
    (Stop.map fun e => .external (e.toText crates)))
  pure policy

/-- What `sign_pset` does before its first input: load the policy and extract the unsigned transaction. -/
def psetAdmission : SignM K (Pset K) PsetError (MinimalHsmPolicy × X) := do
  let policy ← onToken hsm (fun e => .signerBackend (e.toText crates)) (loadPolicy serde signer.label)
  let pset := (← get).transaction
  let unsignedTx ← orErr ((elements.extractTx pset).mapError .elements)
  pure (policy, unsignedTx)

theorem signInputs_eq : signer.signInputs crates hsm serde = (do
    let policy ← signer.admission crates hsm serde
    let psbt := (← get).transaction
    let signedAny ← (List.range psbt.inputs.length).foldlM (fun signedAny inputIdx => do
      let signed ← signer.signInput crates hsm inputIdx
      pure (signedAny || signed)) false
    pure (policy, signedAny)) := by
  simp only [signInputs, admission, bind_assoc, pure_bind]
  refine congrArg _ (funext fun policy => funext fun s => ?_)
  cases hcheck : policy.checkAgainstPsbt crates s.transaction signer.network <;>
    simp [hcheck, bind, EStateM.bind, get, getThe, MonadStateOf.get, EStateM.get, ofResult, Except.mapError] <;> rfl

theorem signPsetInputs_eq : signer.signPsetInputs crates elements hsm serde = (do
    let opened ← signer.psetAdmission crates elements hsm serde
    let pset := (← get).transaction
    let signed ← (List.range pset.inputs.length).foldlM (fun signed inputIdx => do
      let one ← signer.signPsetInput crates elements hsm opened.2 inputIdx
      pure (if one then signed + 1 else signed)) 0
    pure (opened.1, signed)) := by
  simp only [signPsetInputs, psetAdmission, bind_assoc, pure_bind]
  refine congrArg _ (funext fun policy => funext fun s => ?_)
  cases hextract : elements.extractTx s.transaction <;>
    simp [hextract, bind, EStateM.bind, get, getThe, MonadStateOf.get, EStateM.get, orErr, Except.mapError] <;> rfl

end Pkcs11Signer

section

variable {signer : Pkcs11Signer K D} {crates : Crates D} {elements : ElementsCrate K D X} {hsm : Hsm K D}
  {serde : Serde}

theorem wp_admission (s : SignState K (Psbt K)) :
    wp (signer.admission crates hsm serde)
      (fun policy s₁ => signer.Admits crates hsm serde s policy ∧
        Wrote crates hsm (fun _ _ => True) Psbt.insert s [] s₁ ∧ s₁.transaction = s.transaction)
      (fun _ s₁ => s₁.transaction = s.transaction) s := by
  unfold Pkcs11Signer.admission
  rw [wp_bind]
  refine wp_mono (wp_loadPolicy (SigningContract.trivial hsm signer) crates Psbt.insert _ s trivial)
    (fun policy s₁ h₁ => ?_) (fun _ s' h' => ?_)
  · obtain ⟨hstored, hwrote, _, htx⟩ := h₁
    simp only [wp_bind, wp_get, wp_ofResult, wp_pure, htx]
    refine ⟨fun _ hcheck => ⟨⟨hstored, ?_⟩, hwrote, trivial⟩, fun _ _ => trivial⟩
    cases h : policy.checkAgainstPsbt crates s.transaction signer.network with
    | ok _ => rfl
    | error e => rw [h] at hcheck; cases hcheck
  · exact h'.2.1.transaction_nil

theorem wp_psetAdmission (s : SignState K (Pset K)) :
    wp (signer.psetAdmission crates elements hsm serde)
      (fun opened s₁ => (signer.storedPolicy hsm serde s.machine = .ok opened.1 ∧
          elements.extractTx s.transaction = .ok opened.2) ∧
        Wrote crates hsm (fun _ _ => True) (Pset.insert elements) s [] s₁ ∧ s₁.transaction = s.transaction)
      (fun _ s₁ => s₁.transaction = s.transaction) s := by
  unfold Pkcs11Signer.psetAdmission
  rw [wp_bind]
  refine wp_mono (wp_loadPolicy (SigningContract.trivial hsm signer) crates (Pset.insert elements) _ s trivial)
    (fun policy s₁ h₁ => ?_) (fun _ s' h' => ?_)
  · obtain ⟨hstored, hwrote, _, htx⟩ := h₁
    simp only [wp_bind, wp_get, wp_orErr, wp_pure, htx]
    exact ⟨fun unsignedTx h => ⟨⟨hstored, mapError_eq_ok.mp h⟩, hwrote, trivial⟩, fun _ _ => trivial⟩
  · exact h'.2.1.transaction_nil

theorem wp_signInput_round {s t : SignState K (Psbt K)} {inputIdx : Nat} {done : List (Target D)}
    (hidx : inputIdx < s.transaction.inputs.length)
    (h : Wrote crates hsm (fun _ _ => True) Psbt.insert s done t) :
    let asked := signer.inputAgenda crates s.transaction inputIdx
    wp (signer.signInput crates hsm inputIdx)
      (fun _ t' => Clean asked ∧ Wrote crates hsm (fun _ _ => True) Psbt.insert s (done ++ granted asked) t')
      (fun e t' => ∃ made, StopsInInput signer crates hsm inputIdx t e t' made ∧
        (∃ item rest, asked = made.map .ok ++ item :: rest) ∧
        Wrote crates hsm (fun _ _ => True) Psbt.insert s (done ++ made) t') t := by
  intro asked
  have hunsigned := (SigningContract.trivial hsm signer).wrote_unsigned h
  have hlength := congrArg (fun psbt : Psbt K => psbt.inputs.length) hunsigned
  simp only [Psbt.unsigned, List.length_map] at hlength
  have hlt : inputIdx < t.transaction.inputs.length := by omega
  have hagenda : signer.inputAgenda crates t.transaction inputIdx = asked :=
    signer.inputAgenda_congr crates hunsigned inputIdx
  have hround := (SigningContract.trivial hsm signer).wp_signInput inputIdx hlt h trivial
  have hstops := wp_signInput_stops signer hlt h
  rw [hagenda] at hround hstops
  exact wp_mono (wp_and hround hstops) (fun _ _ h' => ⟨h'.1.1, h'.1.2.1⟩) (fun _ _ h' => h'.2)

theorem wp_signPsetInput_round (unsignedTx : X) {s t : SignState K (Pset K)} {inputIdx : Nat}
    {done : List (Target D)} (hidx : inputIdx < s.transaction.inputs.length)
    (h : Wrote crates hsm (fun _ _ => True) (Pset.insert elements) s done t) :
    let asked := signer.psetInputAgenda elements unsignedTx s.transaction inputIdx
    wp (signer.signPsetInput crates elements hsm unsignedTx inputIdx)
      (fun _ t' => Clean asked ∧
        Wrote crates hsm (fun _ _ => True) (Pset.insert elements) s (done ++ granted asked) t')
      (fun _ t' => ∃ made, made = [] ∧ (∃ item rest, asked = made.map .ok ++ item :: rest) ∧
        Wrote crates hsm (fun _ _ => True) (Pset.insert elements) s (done ++ made) t') t := by
  intro asked
  have hunsigned := (SigningContract.trivial hsm signer).wrote_pset_unsigned h
  have hlength := congrArg (fun pset : Pset K => pset.inputs.length) hunsigned
  simp only [Pset.unsigned, List.length_map] at hlength
  have hlt : inputIdx < t.transaction.inputs.length := by omega
  have hagenda : signer.psetInputAgenda elements unsignedTx t.transaction inputIdx = asked :=
    signer.psetInputAgenda_congr elements hunsigned unsignedTx inputIdx
  have hround := (SigningContract.trivial hsm signer).wp_signPsetInput unsignedTx inputIdx
    hlt h trivial
  rw [hagenda] at hround
  refine wp_mono hround (fun _ _ h' => ⟨h'.1, h'.2.1⟩) (fun _ t' h' => ?_)
  obtain ⟨made, hstopsAt, hwrote, _⟩ := h'
  obtain ⟨item, rest, hsplit⟩ := hstopsAt.exists_item
  have hle : asked.length ≤ 1 :=
    SigningContract.length_psetInputAgenda_le signer elements unsignedTx s.transaction inputIdx
  have hnil : made = [] := by
    have hlength := congrArg List.length hsplit
    simp only [List.length_append, List.length_map, List.length_cons] at hlength
    exact List.length_eq_zero_iff.mp (by omega)
  exact ⟨made, hnil, ⟨item, rest, hsplit⟩, hwrote⟩

end

/-- A signing call that returns an error before it records the signature rate was refused by the mutex, was
turned away by its policy, or stopped in the round of an input; then the transaction has, in order, the
signatures for the items before the one it stopped at, and is otherwise as it was. A call that was refused or
turned away has changed nothing in it. -/
theorem error_leaves_first_signatures (signer : Pkcs11Signer K D) (crates : Crates D)
    (elements : ElementsCrate K D X) (hsm : Hsm K D) (serde : Serde) :
    (∀ (s : SignState K (Psbt K)) e s', (signer.signTransaction crates hsm serde).run s = .error e s' →
      FailedCall (.external "Pkcs11Signer mutex poisoned") (signer.admission crates hsm serde)
        (fun policy => signer.Admits crates hsm serde s policy)
        (fun _ => StopsAtInput crates hsm Psbt.insert (signer.signInput crates hsm)
          (signer.inputAgenda crates s.transaction) (StopsInInput signer crates hsm)
          s.transaction.inputs.length s)
        (ReachesEnd (signer.signInputs crates hsm serde) s) s e s' ∧
      (s.poisoned = true ∨ (∃ e s₁, (signer.admission crates hsm serde).run s = .error e s₁) →
        s'.transaction = s.transaction)) ∧
    (∀ (s : SignState K (Pset K)) e s', (signer.signPset crates elements hsm serde).run s = .error e s' →
      FailedCall (.signerBackend "Pkcs11Signer mutex poisoned")
        (signer.psetAdmission crates elements hsm serde)
        (fun opened => signer.storedPolicy hsm serde s.machine = .ok opened.1 ∧
          elements.extractTx s.transaction = .ok opened.2)
        (fun opened => StopsAtInput crates hsm (Pset.insert elements)
          (signer.signPsetInput crates elements hsm opened.2)
          (signer.psetInputAgenda elements opened.2 s.transaction) (fun _ _ _ _ made => made = [])
          s.transaction.inputs.length s)
        (ReachesEnd (signer.signPsetInputs crates elements hsm serde) s) s e s' ∧
      (s.poisoned = true ∨ (∃ e s₁, (signer.psetAdmission crates elements hsm serde).run s = .error e s₁) →
        s'.transaction = s.transaction)) := by
  refine ⟨fun s e s' hrun => ?_, fun s e s' hrun => ?_⟩
  · rw [Pkcs11Signer.signInputs_eq]
    rw [Pkcs11Signer.signTransaction, Pkcs11Signer.signInputs_eq] at hrun
    refine (and_iff_left_of_imp FailedCall.unchanged).mpr ?_
    refine wp_of_run_error (wp_withLock_failed _ _ (wp_admission s) fun policy s₁ h₁ => ?_) hrun
    simp only [wp_bind, wp_get, wp_pure, h₁.2]
    exact wp_loop_stops (fun inputIdx hidx done t ht => wp_signInput_round hidx ht) h₁.1 _ _
  · rw [Pkcs11Signer.signPsetInputs_eq]
    rw [Pkcs11Signer.signPset, Pkcs11Signer.signPsetInputs_eq] at hrun
    refine (and_iff_left_of_imp FailedCall.unchanged).mpr ?_
    refine wp_of_run_error (wp_withLock_failed _ _ (wp_psetAdmission s) fun opened s₁ h₁ => ?_) hrun
    simp only [wp_bind, wp_get, wp_pure, h₁.2]
    exact wp_loop_stops (fun inputIdx hidx done t ht => wp_signPsetInput_round opened.2 hidx ht) h₁.1 _ _

namespace IdealVendor

/-- Two inputs, of which the second has no witness script. -/
def halfWshPsbt : Psbt Key :=
  psbtOf [wshInput [] none, { wshInput [] none with witnessScript := none }] []

/-- How many signatures the inputs of a PSBT have. -/
def signatureCounts (psbt : Psbt Key) : List Nat := psbt.inputs.map fun input => input.partialSigs.size

end IdealVendor

open IdealVendor in
/-- The call on these two inputs fails, and what it leaves is what a failed call leaves. -/
theorem second_input_stops :
    ∃ e s', ((signer []).signTransaction crates token serde).run ⟨machine [], false, halfWshPsbt, []⟩ =
        .error e s' ∧
      FailedCall (.external "Pkcs11Signer mutex poisoned") ((signer []).admission crates token serde)
        (fun policy => (signer []).Admits crates token serde ⟨machine [], false, halfWshPsbt, []⟩ policy)
        (fun _ => StopsAtInput crates token Psbt.insert ((signer []).signInput crates token)
          ((signer []).inputAgenda crates halfWshPsbt) (StopsInInput (signer []) crates token) 2
          ⟨machine [], false, halfWshPsbt, []⟩)
        (ReachesEnd ((signer []).signInputs crates token serde) ⟨machine [], false, halfWshPsbt, []⟩)
        ⟨machine [], false, halfWshPsbt, []⟩ e s' := by
  cases hrun : ((signer []).signTransaction crates token serde).run ⟨machine [], false, halfWshPsbt, []⟩ with
  | ok a s' =>
      have hfails : completes (((signer []).signTransaction crates token serde).run
          ⟨machine [], false, halfWshPsbt, []⟩) = false := by decide +kernel
      rw [hrun] at hfails
      cases hfails
  | error e s' =>
      exact ⟨e, s', rfl,
        ((error_leaves_first_signatures (signer []) crates elements token serde).1 _ e s' hrun).1⟩

open IdealVendor in
/-- When the call fails at the second input, the first one has got a signature. -/
theorem first_input_left_signed :
    signatureCounts halfWshPsbt = [0, 0] ∧
    (match ((signer []).signTransaction crates token serde).run ⟨machine [], false, halfWshPsbt, []⟩ with
      | .ok _ _ => none
      | .error e s => some (e, signatureCounts s.transaction)) =
      some (.err (.external
        "input 1 missing witness_script (only P2WSH multi-sig is supported by Pkcs11Signer in v1)"), [1, 0]) := by
  decide +kernel

end EmvaultPkcs11
