import EmvaultPkcs11.IdealVendor
import EmvaultPkcs11.SigningGate
import EmvaultPkcs11.SigningTargets

/-! Whether a signature can be moved to a transaction the policy forbids. The policy looks at all outputs,
while a signature commits to what its sighash type says, and the type is the one the PSBT asks for. So a
signature stands for what the policy has seen only where the type commits to all outputs, or where the
few output lists it leaves open are all allowed. -/

open Effect Agenda

namespace EmvaultPkcs11

variable {K D : Type}

/-! ### Outputs a policy forbids -/

namespace MinimalHsmPolicy

/-- The transaction rules on a list of outputs. -/
def Allows (policy : MinimalHsmPolicy) (outputs : List TxOut) : Prop :=
  policy.Obeyed (outputs.map TxOut.value) (outputs.map TxOut.scriptPubkey)

/-- The policy has a limit or a whitelist. -/
def HasRules (policy : MinimalHsmPolicy) : Prop :=
  policy.perTransactionLimit ≠ none ∨ policy.destinationWhitelist ≠ none

/-- An output of the largest amount, to a script off the whitelist. -/
def IsForeign (policy : MinimalHsmPolicy) (output : TxOut) : Prop :=
  output.value.toNat = 2 ^ 64 - 1 ∧ ∀ whitelist, policy.destinationWhitelist = some whitelist →
    ∀ address ∈ whitelist, address.scriptPubkey ≠ output.scriptPubkey

variable {policy : MinimalHsmPolicy}

theorem exists_isForeign (policy : MinimalHsmPolicy) : ∃ output, policy.IsForeign output := by
  obtain ⟨script, hscript⟩ := Infinite.exists_notMem_finset
    ((policy.destinationWhitelist.getD []).map Address.scriptPubkey).toFinset
  refine ⟨⟨UInt64.ofNat (2 ^ 64 - 1), script⟩, rfl, fun whitelist hwhitelist address haddress heq => ?_⟩
  apply hscript
  rw [List.mem_toFinset, hwhitelist, Option.getD_some]
  exact List.mem_map.mpr ⟨address, haddress, heq⟩

/-- Two of them are too much for any limit. -/
theorem IsForeign.not_allows {output : TxOut} (h : policy.IsForeign output) (hrules : policy.HasRules)
    (outputs : List TxOut) : ¬policy.Allows (outputs ++ [output, output]) := by
  intro hallows
  rcases hrules with hlimit | hwhitelist
  · obtain ⟨limit, hlimit⟩ := Option.ne_none_iff_exists'.mp hlimit
    have hsum := hallows.limit limit hlimit
    have hlt := limit.toNat_lt
    simp only [List.map_append, List.map_cons, List.map_nil, List.sum_append, List.sum_cons, List.sum_nil,
      h.1] at hsum
    omega
  · obtain ⟨whitelist, hwhitelist⟩ := Option.ne_none_iff_exists'.mp hwhitelist
    obtain ⟨address, haddress, heq⟩ := hallows.whitelist whitelist hwhitelist output.scriptPubkey (by simp)
    exact h.2 whitelist hwhitelist address haddress heq

/-- One is too much for any policy but one: the largest limit, and no whitelist. -/
theorem IsForeign.allows_singleton_iff {output : TxOut} (h : policy.IsForeign output)
    (hrules : policy.HasRules) : policy.Allows [output] ↔
      policy.destinationWhitelist = none ∧ policy.perTransactionLimit = some (UInt64.ofNat (2 ^ 64 - 1)) := by
  constructor
  · intro hallows
    have hnone : policy.destinationWhitelist = none := by
      by_contra hwhitelist
      obtain ⟨whitelist, hwhitelist⟩ := Option.ne_none_iff_exists'.mp hwhitelist
      obtain ⟨address, haddress, heq⟩ := hallows.whitelist whitelist hwhitelist output.scriptPubkey (by simp)
      exact h.2 whitelist hwhitelist address haddress heq
    refine ⟨hnone, ?_⟩
    obtain ⟨limit, hlimit⟩ := Option.ne_none_iff_exists'.mp (hrules.resolve_right (not_not.mpr hnone))
    have hsum := hallows.limit limit hlimit
    have hlt := limit.toNat_lt
    simp only [List.map_cons, List.map_nil, List.sum_cons, List.sum_nil, h.1] at hsum
    rw [hlimit, Option.some.injEq, ← UInt64.toNat_inj, UInt64.toNat_ofNat_of_lt' (by decide)]
    omega
  · rintro ⟨hwhitelist, hlimit⟩
    refine ⟨fun limit h' => ?_, fun whitelist h' => ?_⟩
    · obtain rfl := Option.some.inj (hlimit.symm.trans h')
      simp only [List.map_cons, List.map_nil, List.sum_cons, List.sum_nil, h.1]
      decide
    · rw [hwhitelist] at h'
      cases h'

/-- Under that policy every list of one output at most is allowed. -/
theorem allows_of_length_le_one (hwhitelist : policy.destinationWhitelist = none)
    (hlimit : policy.perTransactionLimit = some (UInt64.ofNat (2 ^ 64 - 1))) {outputs : List TxOut}
    (hlength : outputs.length ≤ 1) : policy.Allows outputs := by
  refine ⟨fun limit h => ?_, fun whitelist h => ?_⟩
  · obtain rfl := Option.some.inj (hlimit.symm.trans h)
    rw [UInt64.toNat_ofNat_of_lt' (by decide)]
    match outputs, hlength with
    | [], _ => simp
    | [output], _ =>
        have hlt := output.value.toNat_lt
        simp only [List.map_cons, List.map_nil, List.sum_cons, List.sum_nil]
        omega
  · rw [hwhitelist] at h
    cases h

end MinimalHsmPolicy

/-! ### Outputs a sighash type leaves open -/

section

variable {policy : MinimalHsmPolicy} (inputIdx : Nat)

/-- A `SINGLE` message commits to no output where the input has none at its index. -/
theorem segwitV0Outputs_eq_zero_iff {ty : EcdsaSighashType} (hsingle : ty.isSingle)
    (outputs : List TxOut) : segwitV0Outputs outputs inputIdx ty = .zero ↔ outputs.length ≤ inputIdx := by
  have hall : ty.isAll = false := by cases ty <;> first | rfl | cases hsingle
  rw [segwitV0Outputs, hall, if_neg Bool.false_ne_true, if_pos hsingle, ← List.getElem?_eq_none_iff]
  cases outputs[inputIdx]? <;> simp

/-- The output lists that a BIP-143 message over `outputs` leaves open are all allowed exactly where the
type commits to all outputs, or is `SINGLE` for an input beyond the outputs, near enough to the first
that there is no room for a forbidden one. -/
theorem segwitV0Outputs_allows_iff (hrules : policy.HasRules) {outputs : List TxOut}
    (hallows : policy.Allows outputs) (ty : EcdsaSighashType) :
    (∀ outputs', segwitV0Outputs outputs' inputIdx ty = segwitV0Outputs outputs inputIdx ty →
        policy.Allows outputs') ↔
      ty.isAll ∨ (ty.isSingle ∧ outputs.length ≤ inputIdx ∧ (inputIdx = 0 ∨ (inputIdx = 1 ∧
        policy.destinationWhitelist = none ∧
        policy.perTransactionLimit = some (UInt64.ofNat (2 ^ 64 - 1))))) := by
  obtain ⟨foreign, hforeign⟩ := policy.exists_isForeign
  by_cases hall : ty.isAll
  · simp only [segwitV0Outputs, hall, if_true, OutputsDigest.all.injEq, true_or, iff_true]
    rintro outputs' rfl
    exact hallows
  by_cases hsingle : ty.isSingle
  case neg =>
      simp only [segwitV0Outputs, hall, hsingle, Bool.false_eq_true, if_false, forall_const, false_and,
        or_false, iff_false, not_forall]
      exact ⟨_, hforeign.not_allows hrules outputs⟩
  simp only [hall, hsingle, Bool.false_eq_true, true_and, false_or]
  by_cases hlength : outputs.length ≤ inputIdx
  · simp only [(segwitV0Outputs_eq_zero_iff inputIdx hsingle outputs).mpr hlength,
      segwitV0Outputs_eq_zero_iff inputIdx hsingle, hlength, true_and]
    match inputIdx with
    | 0 =>
        simp only [Nat.le_zero, List.length_eq_zero_iff] at hlength ⊢
        simp only [forall_eq, true_or, iff_true]
        exact hlength ▸ hallows
    | 1 =>
        simp only [Nat.one_ne_zero, true_and, false_or]
        exact ⟨fun h => (hforeign.allows_singleton_iff hrules).mp (h [foreign] (Nat.le_refl _)),
          fun h _ => MinimalHsmPolicy.allows_of_length_le_one h.1 h.2⟩
    | i + 2 =>
        constructor
        · exact fun h => absurd (h [foreign, foreign] (Nat.le_add_left _ _))
            (hforeign.not_allows hrules [])
        · rintro (h | ⟨h, _⟩) <;> omega
  · have hextended : (outputs ++ [foreign, foreign])[inputIdx]? = outputs[inputIdx]? :=
      List.getElem?_append_left (Nat.lt_of_not_le hlength)
    simp only [hlength, false_and, iff_false]
    refine fun h => hforeign.not_allows hrules outputs (h _ ?_)
    simp only [segwitV0Outputs, hextended, hall, Bool.false_eq_true, if_false]

/-- The output lists that a BIP-341 message leaves open are all allowed exactly where the type commits to
all outputs. -/
theorem taprootOutputs_allows_iff (hrules : policy.HasRules) {outputs : List TxOut}
    (hallows : policy.Allows outputs) (ty : TapSighashType) {digest : OutputsDigest}
    (hdigest : taprootOutputs outputs inputIdx ty = .ok digest) :
    (∀ outputs', taprootOutputs outputs' inputIdx ty = .ok digest → policy.Allows outputs') ↔
      ty.isAll := by
  obtain ⟨foreign, hforeign⟩ := policy.exists_isForeign
  by_cases hall : ty.isAll
  · simp only [taprootOutputs, hall, if_true, Except.ok.injEq, iff_true] at hdigest ⊢
    rintro outputs' rfl
    obtain rfl := OutputsDigest.all.inj hdigest
    exact hallows
  · simp only [hall, Bool.false_eq_true, iff_false]
    refine fun h => hforeign.not_allows hrules outputs (h _ ?_)
    simp only [taprootOutputs, hall, Bool.false_eq_true, if_false] at hdigest ⊢
    by_cases hsingle : ty.isSingle
    · simp only [hsingle, if_true] at hdigest ⊢
      cases houtput : outputs[inputIdx]? with
      | none =>
          rw [houtput] at hdigest
          cases hdigest
      | some output =>
          have hlength := (List.getElem?_eq_some_iff.mp houtput).1
          rw [List.getElem?_append_left hlength, houtput]
          rwa [houtput] at hdigest
    · simpa only [hsingle, Bool.false_eq_true, if_false] using hdigest

end

/-! ### The digest of an input -/

/-- The PSBT with other outputs. -/
def Psbt.withOutputs (psbt : Psbt K) (outputs : List TxOut) : Psbt K :=
  { psbt with unsignedTx := { psbt.unsignedTx with output := outputs } }

/-- The digest of an input under the sighash type of a signature for it, if it has one. -/
def Psbt.digestOf (crates : Crates D) (psbt : Psbt K) (inputIdx : Nat) : Insertion K → Option D
  | .partialSig _ signature => do
      let input ← psbt.inputs[inputIdx]?
      let script ← input.witnessScript
      let utxo ← input.witnessUtxo
      let message ← (p2wshSignatureMessage psbt.unsignedTx inputIdx script utxo.value
        signature.sighashType).toOption
      return crates.digest (.segwitV0 message)
  | .tapScriptSig _ leafHash signature => do
      let prevouts ← (Pkcs11Signer.allPrevouts psbt).toOption
      let message ← (taprootScriptSpendMessage psbt.unsignedTx inputIdx prevouts leafHash
        signature.sighashType).toOption
      return crates.digest (.taproot message)

/-- The type an input asks for leaves no output list open that the policy forbids: it commits to all
outputs, or it is `SINGLE` on a P2WSH input without an output at its index, which is the first input, or
the second under the largest limit and no whitelist. -/
def Psbt.CommitsFor (crates : Crates D) (policy : MinimalHsmPolicy) (psbt : Psbt K) (inputIdx : Nat) : Prop :=
  ∃ input, psbt.inputs[inputIdx]? = some input ∧
    ((Pkcs11Signer.isTaproot input = true ∧
        ∃ ty, Pkcs11Signer.tapSighashType crates input = .ok ty ∧ ty.isAll) ∨
      (Pkcs11Signer.isTaproot input = false ∧
        ∃ ty, Pkcs11Signer.wshSighashType crates input = .ok ty ∧
          (ty.isAll ∨ (ty.isSingle ∧ psbt.unsignedTx.output.length ≤ inputIdx ∧
            (inputIdx = 0 ∨ (inputIdx = 1 ∧ policy.destinationWhitelist = none ∧
              policy.perTransactionLimit = some (UInt64.ofNat (2 ^ 64 - 1))))))))

theorem p2wshSignatureMessage_withOutputs {tx : Transaction} {inputIdx : Nat} {script : Script}
    {value : Amount} {ty : EcdsaSighashType} {message : SegwitV0Message}
    (h : p2wshSignatureMessage tx inputIdx script value ty = .ok message) (outputs : List TxOut) :
    p2wshSignatureMessage { tx with output := outputs } inputIdx script value ty =
      .ok { message with hashOutputs := segwitV0Outputs outputs inputIdx ty } := by
  unfold p2wshSignatureMessage at h ⊢
  dsimp only
  split at h
  · cases h
  next => rw [← Except.ok.inj h]

theorem taprootScriptSpendMessage_withOutputs {tx : Transaction} {inputIdx : Nat} {prevouts : List TxOut}
    {leafHash : TapLeafHash} {ty : TapSighashType} {message : TaprootMessage}
    (h : taprootScriptSpendMessage tx inputIdx prevouts leafHash ty = .ok message) (outputs : List TxOut) :
    taprootScriptSpendMessage { tx with output := outputs } inputIdx prevouts leafHash ty =
      (taprootOutputs outputs inputIdx ty).map fun digest => { message with outputs := digest } := by
  unfold taprootScriptSpendMessage at h ⊢
  dsimp only
  split at h
  · cases h
  next hlength =>
    rw [if_neg hlength]
    split at h
    next inputs digest hinputs houtputs =>
      have hinputs' : taprootInputs { tx with output := outputs } inputIdx prevouts ty = .ok inputs :=
        hinputs
      rw [hinputs', ← Except.ok.inj h]
      cases taprootOutputs outputs inputIdx ty <;> rfl
    all_goals cases h

theorem p2wshSignatureMessage_hashOutputs {tx : Transaction} {inputIdx : Nat} {script : Script}
    {value : Amount} {ty : EcdsaSighashType} {message : SegwitV0Message}
    (h : p2wshSignatureMessage tx inputIdx script value ty = .ok message) :
    message.hashOutputs = segwitV0Outputs tx.output inputIdx ty := by
  have hself := p2wshSignatureMessage_withOutputs h tx.output
  exact congrArg SegwitV0Message.hashOutputs (Except.ok.inj (h.symm.trans hself))

theorem taprootScriptSpendMessage_outputs {tx : Transaction} {inputIdx : Nat} {prevouts : List TxOut}
    {leafHash : TapLeafHash} {ty : TapSighashType} {message : TaprootMessage}
    (h : taprootScriptSpendMessage tx inputIdx prevouts leafHash ty = .ok message) :
    taprootOutputs tx.output inputIdx ty = .ok message.outputs := by
  have hself := h.symm.trans (taprootScriptSpendMessage_withOutputs h tx.output)
  cases houtputs : taprootOutputs tx.output inputIdx ty with
  | error e =>
      rw [houtputs] at hself
      cases hself
  | ok digest =>
      rw [houtputs] at hself
      exact congrArg Except.ok (congrArg TaprootMessage.outputs (Except.ok.inj hself)).symm

/-! ### Reusing a signature -/

section

variable {hsm : Hsm K D} {signer : Pkcs11Signer K D} {crates : Crates D} {serde : Serde}
  {policy : MinimalHsmPolicy}

/-- The digest of a P2WSH input under a request's type depends on the outputs through what BIP-143 commits
to, and that alone. -/
theorem digestOf_wsh_iff (hdigest : Function.Injective crates.digest) {psbt : Psbt K} {inputIdx : Nat}
    {input : Input K} (hinput : psbt.inputs[inputIdx]? = some input) {script : Script}
    (hscript : input.witnessScript = some script) {utxo : TxOut} (hutxo : input.witnessUtxo = some utxo)
    {pk : BitcoinPublicKey} {sig : Signature K} {ty : EcdsaSighashType} {message : SegwitV0Message}
    (hmessage : p2wshSignatureMessage psbt.unsignedTx inputIdx script utxo.value ty = .ok message)
    (outputs : List TxOut) :
    (psbt.withOutputs outputs).digestOf crates inputIdx (.partialSig pk ⟨sig, ty⟩) =
        psbt.digestOf crates inputIdx (.partialSig pk ⟨sig, ty⟩) ↔
      segwitV0Outputs outputs inputIdx ty = segwitV0Outputs psbt.unsignedTx.output inputIdx ty := by
  have hother := p2wshSignatureMessage_withOutputs hmessage outputs
  have hsame := p2wshSignatureMessage_hashOutputs hmessage
  simp only [Psbt.digestOf, Psbt.withOutputs, hinput, hscript, hutxo, hmessage, hother, Except.toOption,
    Option.bind_eq_bind, Option.bind_some, Option.pure_def, Option.some.injEq, hdigest.eq_iff,
    SighashMessage.segwitV0.injEq]
  rw [← hsame]
  cases message
  simp

/-- The same of a leaf of a taproot input and BIP-341. -/
theorem digestOf_taproot_iff (hdigest : Function.Injective crates.digest) {psbt : Psbt K} {inputIdx : Nat}
    {prevouts : List TxOut} (hprevouts : Pkcs11Signer.allPrevouts psbt = .ok prevouts)
    {xonly : XOnlyPublicKey} {leafHash : TapLeafHash} {sig : Signature K} {ty : TapSighashType}
    {message : TaprootMessage}
    (hmessage : taprootScriptSpendMessage psbt.unsignedTx inputIdx prevouts leafHash ty = .ok message)
    (outputs : List TxOut) :
    (psbt.withOutputs outputs).digestOf crates inputIdx (.tapScriptSig xonly leafHash ⟨sig, ty⟩) =
        psbt.digestOf crates inputIdx (.tapScriptSig xonly leafHash ⟨sig, ty⟩) ↔
      taprootOutputs outputs inputIdx ty = .ok message.outputs := by
  have hother := taprootScriptSpendMessage_withOutputs hmessage outputs
  have hprevouts' : Pkcs11Signer.allPrevouts (psbt.withOutputs outputs) = .ok prevouts := hprevouts
  simp only [Psbt.digestOf, hprevouts', hprevouts, hmessage, Except.toOption, Option.bind_eq_bind,
    Option.bind_some, Option.pure_def]
  simp only [Psbt.withOutputs, hother]
  cases taprootOutputs outputs inputIdx ty with
  | error e => simp [Except.map]
  | ok digest =>
      simp only [Except.map, Option.bind_some, Option.some.injEq, hdigest.eq_iff,
        SighashMessage.taproot.injEq, Except.ok.injEq]
      cases message
      simp

/-- A signature that `sign_transaction` writes under a policy with a limit or a whitelist cannot be reused
for other outputs that the policy forbids, exactly where the type its input asks for commits to enough. -/
theorem reuse_iff (hdigest : Function.Injective crates.digest) (hrules : policy.HasRules)
    (s : SignState K (Psbt K)) (hstored : signer.storedPolicy hsm serde s.machine = .ok policy)
    {w : Written K} (hw : w ∈ writtenBy (signer.signTransaction crates hsm serde) s) :
    (∀ outputs, (s.transaction.withOutputs outputs).digestOf crates w.inputIdx w.insertion =
        s.transaction.digestOf crates w.inputIdx w.insertion →
      policy.checkAgainstPsbt crates (s.transaction.withOutputs outputs) signer.network = .ok ()) ↔
    s.transaction.CommitsFor crates policy w.inputIdx := by
  obtain ⟨policy', hadmits, hcheck⟩ := admits_of_written s (List.ne_nil_of_mem hw)
  obtain rfl : policy' = policy := Except.ok.inj (hadmits.symm.trans hstored)
  obtain ⟨hnetwork, hallows⟩ := (checkAgainstPsbt_eq_ok_iff crates policy' _ _).mp hcheck
  have haccepts (outputs : List TxOut) :
      policy'.checkAgainstPsbt crates (s.transaction.withOutputs outputs) signer.network = .ok () ↔
        policy'.Allows outputs := by
    rw [checkAgainstPsbt_eq_ok_iff]
    exact and_iff_right hnetwork
  obtain ⟨target, htarget, hidx, sig, _, hinsertion⟩ :=
    ((SigningContract.trivial hsm signer).signTransaction_wrotePart crates serde s
      True.intro).exists_target hw
  simp only [haccepts, hidx, hinsertion]
  obtain ⟨inputIdx, input, hinput, hkind⟩ := Pkcs11Signer.mem_agenda htarget
  rcases hkind with ⟨htaproot, hmem⟩ | ⟨hwsh, request, hrequest, rfl⟩
  · obtain ⟨xonly, _, _, leafHash, prevouts, ty, message, _, hty, hprevouts, hmessage, rfl⟩ :=
      Pkcs11Signer.mem_taprootAgenda hmem
    have hiff := taprootOutputs_allows_iff inputIdx hrules hallows ty
      (taprootScriptSpendMessage_outputs hmessage)
    simp only [Target.insertion, digestOf_taproot_iff hdigest hprevouts hmessage, hiff]
    simp only [Psbt.CommitsFor, hinput, Option.some.injEq, exists_eq_left', htaproot, hty, true_and,
      Except.ok.injEq, false_and, or_false, Bool.true_eq_false]
  · obtain ⟨pk, _, ty, script, utxo, message, _, hty, hscript, hutxo, hmessage, rfl⟩ :=
      Pkcs11Signer.wshRequest_eq_some hrequest
    have hiff := segwitV0Outputs_allows_iff inputIdx hrules hallows ty
    simp only [EcdsaRequest.target, Target.insertion, digestOf_wsh_iff hdigest hinput hscript hutxo
      hmessage, hiff]
    simp only [Psbt.CommitsFor, hinput, Option.some.injEq, exists_eq_left', hwsh, hty, true_and,
      Except.ok.injEq, false_and, false_or, Bool.false_eq_true]

end

open IdealVendor in
/-- Under a limit of 10, a signature of type `ALL` for a PSBT that pays out 5 is not one for a PSBT that
pays out 100. -/
theorem all_signature_not_reused :
    ((psbtOf [wshInput [] none] [⟨5, []⟩]).withOutputs [⟨100, []⟩]).digestOf crates 0
        (.partialSig (.new (publicKey master)) ⟨⟨signatureBytes, master⟩, .all⟩) ≠
      (psbtOf [wshInput [] none] [⟨5, []⟩]).digestOf crates 0
        (.partialSig (.new (publicKey master)) ⟨⟨signatureBytes, master⟩, .all⟩) := by
  intro hsame
  have hwritten : writtenBy ((signer []).signTransaction crates token serde)
      ⟨withPolicy ⟨some 10, none, none⟩ (machine []), false, psbtOf [wshInput [] none] [⟨5, []⟩], []⟩ =
        [⟨0, .partialSig (.new (publicKey master)) ⟨⟨signatureBytes, master⟩, .all⟩, 9⟩] := by
    decide +kernel
  have hmem := List.mem_singleton_self (⟨0, .partialSig (.new (publicKey master))
    ⟨⟨signatureBytes, master⟩, .all⟩, 9⟩ : Written Key)
  rw [← hwritten] at hmem
  have hpolicy : (signer []).storedPolicy token serde (withPolicy ⟨some 10, none, none⟩ (machine [])) =
      .ok ⟨some 10, none, none⟩ := rfl
  have haccepted := (reuse_iff (fun _ _ h => Digest.bitcoin.inj h) (Or.inl (by simp)) _ hpolicy hmem).mpr
    ⟨wshInput [] none, rfl, Or.inr ⟨rfl, .all, rfl, Or.inl rfl⟩⟩ [⟨100, []⟩] hsame
  rw [checkAgainstPsbt_eq_ok_iff] at haccepted
  exact absurd (haccepted.2.limit 10 rfl) (by decide)

open IdealVendor in
/-- Under a limit of 10, a PSBT that pays out 5 and asks for type `NONE` gets a signature that is good for
one that pays out 100, which the policy forbids. -/
theorem none_signature_reused :
    (signer []).storedPolicy token serde (withPolicy ⟨some 10, none, none⟩ (machine [])) =
      .ok ⟨some 10, none, none⟩ ∧
    ∃ w ∈ writtenBy ((signer []).signTransaction crates token serde)
        ⟨withPolicy ⟨some 10, none, none⟩ (machine []), false,
          psbtOf [wshInput [] (some 2)] [⟨5, []⟩], []⟩,
      ((psbtOf [wshInput [] (some 2)] [⟨5, []⟩]).withOutputs [⟨100, []⟩]).digestOf crates w.inputIdx
          w.insertion =
        (psbtOf [wshInput [] (some 2)] [⟨5, []⟩]).digestOf crates w.inputIdx w.insertion ∧
      (⟨some 10, none, none⟩ : MinimalHsmPolicy).checkAgainstPsbt crates
        ((psbtOf [wshInput [] (some 2)] [⟨5, []⟩]).withOutputs [⟨100, []⟩]) (signer []).network ≠ .ok () := by
  have hwritten : writtenBy ((signer []).signTransaction crates token serde)
      ⟨withPolicy ⟨some 10, none, none⟩ (machine []), false,
        psbtOf [wshInput [] (some 2)] [⟨5, []⟩], []⟩ =
        [⟨0, .partialSig (.new (publicKey master)) ⟨⟨signatureBytes, master⟩, .none⟩, 9⟩] := by
    decide +kernel
  refine ⟨rfl, _, hwritten ▸ List.mem_singleton_self _, by decide +kernel, fun haccepted => ?_⟩
  rw [checkAgainstPsbt_eq_ok_iff] at haccepted
  exact absurd (haccepted.2.limit 10 rfl) (by decide)

end EmvaultPkcs11
