import EmvaultPkcs11.SigningCompleteness

/-! What the two signing paths decide about one and the same input. `sign_pset` is written after
`sign_transaction` and takes every step of it but one: a sighash type that `ecdsa_hash_ty` does not accept
rejects a PSBT input, while a PSET input with it is signed as if it asked for `ALL`. -/

open Effect

namespace EmvaultPkcs11

variable {K D X : Type}

/-- What a signing path does about an input: it is not the signer's, it is refused, or it is signed with the
key at a path below the federation key, filed under a key, with a sighash type. -/
inductive Decision where
  | skip
  | reject
  | sign (relativePath : DerivationPath) (publicKey : BitcoinPublicKey) (sighashType : EcdsaSighashType)
  deriving DecidableEq

/-- The decision a request stands for. -/
def decision {ε : Type} : Except ε (Option (EcdsaRequest D)) → Decision
  | .error _ => .reject
  | .ok none => .skip
  | .ok (some request) => .sign request.relativePath request.publicKey request.sighashType

/-- A PSBT input and a PSET input that ask for the same: the same key origins, the PSET's under compressed
keys, the same sighash type, and a witness script and a spent output in both or in neither. -/
structure Corresponds (input : Input K) (psetInput : PsetInput K) : Prop where
  origins : ∀ publicKey, psetInput.bip32Derivation[BitcoinPublicKey.new publicKey]? =
    input.bip32Derivation[publicKey]?
  compressed : ∀ (publicKey : BitcoinPublicKey) (source : KeySource),
    psetInput.bip32Derivation[publicKey]? = some source → publicKey.compressed = true
  sighashType : psetInput.sighashType = input.sighashType
  witnessScript : psetInput.witnessScript.isSome = input.witnessScript.isSome
  witnessUtxo : psetInput.witnessUtxo.isSome = input.witnessUtxo.isSome

/-- A standard sighash value is one that a type has. -/
theorem EcdsaSighashType.fromStandard_eq_ok_iff (value : UInt32) (ty : EcdsaSighashType) :
    fromStandard value = .ok ty ↔ ty.toU32 = value := by
  constructor
  · intro h
    unfold fromStandard at h
    split_ifs at h with h1 h2 h3 h4 h5 h6 <;> cases h <;> symm <;> assumption
  · rintro rfl
    cases ty <;> rfl

namespace Pkcs11Signer

variable {signer : Pkcs11Signer K D} {crates : Crates D} {elements : ElementsCrate K D X}

theorem compare_new (publicKey publicKey' : PublicKey) :
    compare (BitcoinPublicKey.new publicKey) (BitcoinPublicKey.new publicKey') =
      compare publicKey publicKey' := by
  change compareLex (compareOn BitcoinPublicKey.compressed) (compareOn BitcoinPublicKey.inner) _ _ = _
  simp [compareLex, compareOn, BitcoinPublicKey.new]

/-- Corresponding inputs make the two paths pick the same key origin. -/
theorem ourPsetOrigin_of_corresponds {input : Input K} {psetInput : PsetInput K}
    (h : Corresponds input psetInput) :
    signer.ourPsetOrigin psetInput = (signer.ourOrigin input).map fun origin => (.new origin.1, origin.2) := by
  have hpicked {publicKey : PublicKey} {path : DerivationPath}
      (horigin : signer.ourOrigin input = some (publicKey, path)) :
      signer.ourPsetOrigin psetInput = some (.new publicKey, path) := by
    obtain ⟨hentry, hleast⟩ := ourOrigin_eq_some_iff.mp horigin
    refine ourPsetOrigin_eq_some_iff.mpr ⟨by rw [h.origins, hentry], fun publicKey' path' hentry' => ?_⟩
    have hnew : publicKey' = .new publicKey'.inner := by
      rw [BitcoinPublicKey.new, ← h.compressed _ _ hentry']
    rw [hnew, h.origins] at hentry'
    rw [hnew, compare_new]
    have hle := hleast _ _ hentry'
    rw [ne_eq, Nat.compare_eq_lt]
    exact Nat.not_lt.mpr hle
  cases horigin : signer.ourOrigin input with
  | some origin => exact hpicked horigin
  | none =>
      rw [Option.map_none, ourPsetOrigin, Option.map_eq_none_iff, List.find?_eq_none]
      rintro ⟨publicKey', fp, path'⟩ hmem hfp
      have hentry' := Std.ExtTreeMap.mem_toList_iff_getElem?_eq_some.mp hmem
      have hnew : publicKey' = .new publicKey'.inner := by
        rw [BitcoinPublicKey.new, ← h.compressed _ _ hentry']
      rw [hnew, h.origins] at hentry'
      rw [ourOrigin, Option.map_eq_none_iff, List.find?_eq_none] at horigin
      exact horigin _ (Std.ExtTreeMap.mem_toList_iff_getElem?_eq_some.mpr hentry') hfp

/-! ### The decisions -/

/-- The decision about a PSBT input of the signer whose path is long enough. -/
theorem decision_wshRequest {tx : Transaction} {inputIdx : Nat} {input : Input K} {publicKey : PublicKey}
    {path : DerivationPath} (horigin : signer.ourOrigin input = some (publicKey, path))
    (hlong : ¬path.length < signer.derivationPath.length) :
    decision (signer.wshRequest crates tx inputIdx input) =
      match wshSighashType crates input with
      | .error _ => .reject
      | .ok sighashType =>
          if input.witnessScript.isSome ∧ input.witnessUtxo.isSome ∧ inputIdx < tx.input.length then
            .sign (path.drop signer.derivationPath.length) (.new publicKey) sighashType
          else .reject := by
  have hrelative (message : String) : signer.relativePath message path =
      .ok (path.drop signer.derivationPath.length) := by
    rw [relativePath, if_neg hlong]
  simp only [wshRequest, horigin, hrelative]
  cases wshSighashType crates input with
  | error e => rfl
  | ok sighashType =>
      cases input.witnessScript with
      | none => rfl
      | some script =>
          cases input.witnessUtxo with
          | none => rfl
          | some utxo =>
              by_cases hidx : inputIdx < tx.input.length
              · simp [bind, Except.bind, orExternal, p2wshSignatureMessage, hidx, Except.mapError,
                  decision, pure, Except.pure]
              · simp [bind, Except.bind, orExternal, p2wshSignatureMessage, hidx, Except.mapError, decision]

/-- The decision about a PSET input of the signer whose path is long enough. -/
theorem decision_psetRequest {tx : X} {inputIdx : Nat} {input : PsetInput K} {publicKey : BitcoinPublicKey}
    {path : DerivationPath} (horigin : signer.ourPsetOrigin input = some (publicKey, path))
    (hlong : ¬path.length < signer.derivationPath.length) :
    decision (signer.psetRequest elements tx inputIdx input) =
      if input.witnessScript.isSome ∧ input.witnessUtxo.isSome then
        .sign (path.drop signer.derivationPath.length) publicKey (psetSighashType input)
      else .reject := by
  simp only [psetRequest, horigin, psetRelativePath, if_neg hlong]
  cases input.witnessScript with
  | none => rfl
  | some script =>
      cases input.witnessUtxo with
      | none => rfl
      | some utxo => rfl

/-- The sighash type the PSBT path takes, where it takes one, is the one the PSET path takes. -/
theorem wshSighashType_of_corresponds {input : Input K} {psetInput : PsetInput K}
    (h : Corresponds input psetInput) :
    wshSighashType crates input = .ok (psetSighashType psetInput) ↔
      ∀ value, input.sighashType = some value → ∃ ty : EcdsaSighashType, ty.toU32 = value := by
  rw [wshSighashType, psetSighashType, h.sighashType]
  cases input.sighashType with
  | none => simp
  | some value =>
      dsimp only
      cases hvalue : EcdsaSighashType.fromStandard value with
      | ok ty =>
          have hstandard := (EcdsaSighashType.fromStandard_eq_ok_iff value ty).mp hvalue
          simp only [Except.mapError, Option.bind_some, hvalue, Except.toOption, Option.getD_some, true_iff,
            Option.some.injEq]
          rintro _ rfl
          exact ⟨ty, hstandard⟩
      | error e =>
          constructor
          · intro heq
            rw [mapError_eq_ok] at heq
            cases heq
          · intro hstandard
            obtain ⟨ty, hty⟩ := hstandard value rfl
            rw [(EcdsaSighashType.fromStandard_eq_ok_iff value ty).mpr hty] at hvalue
            cases hvalue

theorem wshSighashType_eq_ok {input : Input K} {psetInput : PsetInput K} (h : Corresponds input psetInput)
    {ty : EcdsaSighashType} (hty : wshSighashType crates input = .ok ty) : ty = psetSighashType psetInput := by
  rw [wshSighashType] at hty
  rw [psetSighashType, h.sighashType]
  cases hvalue : input.sighashType with
  | none =>
      rw [hvalue] at hty
      exact (Except.ok.inj hty).symm
  | some value =>
      rw [hvalue] at hty
      simp only [Option.bind_some, mapError_eq_ok.mp hty, Except.toOption, Option.getD_some]

end Pkcs11Signer

/-- The two paths decide the same about corresponding inputs exactly when the input is not the signer's, its
path is too short, its witness script or spent output is missing, or its sighash type is absent or
standard and the unsigned transaction has an input for it. -/
theorem same_decision_iff (signer : Pkcs11Signer K D) (crates : Crates D) (elements : ElementsCrate K D X)
    (tx : Transaction) (elementsTx : X) (inputIdx : Nat) {input : Input K} {psetInput : PsetInput K}
    (h : Corresponds input psetInput) :
    decision (signer.psetRequest elements elementsTx inputIdx psetInput) =
        decision (signer.wshRequest crates tx inputIdx input) ↔
      ∀ publicKey path, signer.ourOrigin input = some (publicKey, path) →
        signer.derivationPath.length ≤ path.length → input.witnessScript.isSome → input.witnessUtxo.isSome →
        (∀ value, input.sighashType = some value → ∃ ty : EcdsaSighashType, ty.toU32 = value) ∧
          inputIdx < tx.input.length := by
  have hpset : signer.ourPsetOrigin psetInput =
      (signer.ourOrigin input).map fun origin => (.new origin.1, origin.2) :=
    Pkcs11Signer.ourPsetOrigin_of_corresponds h
  have hstandard : Pkcs11Signer.wshSighashType crates input = .ok (Pkcs11Signer.psetSighashType psetInput) ↔
      ∀ value, input.sighashType = some value → ∃ ty : EcdsaSighashType, ty.toU32 = value :=
    Pkcs11Signer.wshSighashType_of_corresponds h
  cases horigin : signer.ourOrigin input with
  | none =>
      rw [horigin] at hpset
      simp only [Option.map_none] at hpset
      simp [Pkcs11Signer.psetRequest, Pkcs11Signer.wshRequest, horigin, hpset, decision]
  | some origin =>
      obtain ⟨publicKey, path⟩ := origin
      rw [horigin] at hpset
      simp only [Option.map_some] at hpset
      simp only [Option.some.injEq, Prod.mk.injEq, and_imp, forall_eq', forall_apply_eq_imp_iff]
      by_cases hlong : path.length < signer.derivationPath.length
      · have hleft : decision (signer.psetRequest elements elementsTx inputIdx psetInput) = .reject := by
          simp only [Pkcs11Signer.psetRequest, hpset, Pkcs11Signer.psetRelativePath, if_pos hlong]
          rfl
        have hright : decision (signer.wshRequest crates tx inputIdx input) = .reject := by
          simp only [Pkcs11Signer.wshRequest, horigin, Pkcs11Signer.relativePath, if_pos hlong]
          rfl
        rw [hleft, hright]
        apply iff_of_true rfl
        intro hle
        omega
      · rw [Pkcs11Signer.decision_psetRequest hpset hlong, Pkcs11Signer.decision_wshRequest horigin hlong,
          h.witnessScript, h.witnessUtxo, ← hstandard]
        have hle : signer.derivationPath.length ≤ path.length := by omega
        cases hty : Pkcs11Signer.wshSighashType crates input with
        | error e =>
            by_cases hpresent : input.witnessScript.isSome ∧ input.witnessUtxo.isSome
            · simp [hpresent, hle]
            · rw [if_neg hpresent]
              apply iff_of_true rfl
              intro _ hscript hutxo
              exact absurd ⟨hscript, hutxo⟩ hpresent
        | ok ty =>
            rw [Pkcs11Signer.wshSighashType_eq_ok h hty]
            by_cases hscript : input.witnessScript.isSome <;> by_cases hutxo : input.witnessUtxo.isSome <;>
              by_cases hidx : inputIdx < tx.input.length <;> simp [hscript, hutxo, hidx, hle]

namespace IdealVendor

/-- The input of the PSET that corresponds to `wshInput`. -/
def matchingInput (path : DerivationPath) (sighashType : Option UInt32) : PsetInput Key :=
  { psetInput path with sighashType := sighashType }

theorem matchingInput_corresponds (path : DerivationPath) (sighashType : Option UInt32) :
    Corresponds (wshInput path sighashType) (matchingInput path sighashType) where
  origins key := by
    simp only [matchingInput, psetInput, wshInput, Std.ExtTreeMap.getElem?_insert, Pkcs11Signer.compare_new]
    rfl
  compressed key source h := by
    simp only [matchingInput, psetInput, Std.ExtTreeMap.getElem?_insert] at h
    split at h
    next heq =>
      rw [← Std.LawfulEqOrd.eq_of_compare heq]
      rfl
    next => simp at h
  sighashType := rfl
  witnessScript := rfl
  witnessUtxo := rfl

/-- The decisions of the two paths about one input. -/
def decisions (sighashType : Option UInt32) : Decision × Decision :=
  (decision ((signer []).psetRequest elements [] 0 (matchingInput [.normal 3] sighashType)),
    decision ((signer []).wshRequest crates (psbtOf [wshInput [.normal 3] sighashType] []).unsignedTx 0
      (wshInput [.normal 3] sighashType)))

end IdealVendor

open IdealVendor in
/-- An input that asks for `SINGLE` is signed alike by both. -/
theorem single_signed_alike : (decisions (some 0x03)).1 = (decisions (some 0x03)).2 := by
  refine (same_decision_iff (signer []) crates elements
    (psbtOf [wshInput [.normal 3] (some 0x03)] []).unsignedTx [] 0
    (matchingInput_corresponds [.normal 3] (some 0x03))).mpr ?_
  intro publicKey path _ _ _ _
  refine ⟨?_, by decide⟩
  rintro value heq
  obtain rfl := Option.some.inj heq
  exact ⟨.single, rfl⟩

open IdealVendor in
/-- An input with the sighash value 0x04 is refused in a PSBT and signed with `ALL` in a PSET. -/
theorem nonstandard_sighash_signed_in_pset :
    Corresponds (wshInput [.normal 3] (some 0x04)) (matchingInput [.normal 3] (some 0x04)) ∧
    decisions (some 0x04) = (.sign [.normal 3] (.new (publicKey ⟨[7], [.normal 3]⟩)) .all, .reject) :=
  ⟨matchingInput_corresponds _ _, by decide +kernel⟩

end EmvaultPkcs11
