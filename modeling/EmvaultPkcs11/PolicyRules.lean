import EmvaultPkcs11.Policy

/-! The transaction rules of a policy as a condition on the outputs, and that `check_against_psbt` lets a
PSBT through exactly when it meets them. The limit is on the mathematical sum: a sum that does not fit
64 bits is above every limit, and the addition that panics on it turns the PSBT away as well. -/

open Effect

namespace EmvaultPkcs11

variable {K D ε : Type}

/-- What the limit and the whitelist of a policy ask of a transaction's amounts and scripts. -/
structure MinimalHsmPolicy.Obeyed (policy : MinimalHsmPolicy) (amounts : List Amount)
    (scripts : List Script) : Prop where
  limit : ∀ limit, policy.perTransactionLimit = some limit →
    (amounts.map UInt64.toNat).sum ≤ limit.toNat
  whitelist : ∀ whitelist, policy.destinationWhitelist = some whitelist →
    ∀ script ∈ scripts, ∃ address ∈ whitelist, address.scriptPubkey = script

/-- The whitelist holds addresses of the network only. -/
def MinimalHsmPolicy.OnNetwork (policy : MinimalHsmPolicy) (network : Network) : Prop :=
  ∀ whitelist, policy.destinationWhitelist = some whitelist →
    ∀ address ∈ whitelist, network ∈ address.networks

def Psbt.Obeys (psbt : Psbt K) (policy : MinimalHsmPolicy) : Prop :=
  policy.Obeyed (psbt.unsignedTx.output.map TxOut.value) (psbt.unsignedTx.output.map TxOut.scriptPubkey)

/-! ### The two rules -/

/-- A sum of amounts is the mathematical sum, if that fits 64 bits. -/
theorem foldlM_add_eq_ok_iff (outputs : List TxOut) :
    ∀ total result : Amount,
      outputs.foldlM (fun total output => Amount.add (ε := ε) total output.value) total = .ok result ↔
        result.toNat = total.toNat + ((outputs.map TxOut.value).map UInt64.toNat).sum := by
  induction outputs with
  | nil =>
      intro total result
      simp [pure, Except.pure, ← UInt64.toNat_inj, eq_comm]
  | cons output outputs ih =>
      intro total result
      simp only [List.foldlM_cons, List.map_cons, List.sum_cons, bind_eq_ok, ih]
      have hresult := result.toNat_lt
      constructor
      · rintro ⟨total', hadd, hresult⟩
        unfold Amount.add at hadd
        split at hadd
        next hfits =>
          rw [← Except.ok.inj hadd, UInt64.toNat_add, Nat.mod_eq_of_lt hfits] at hresult
          omega
        next => cases hadd
      · intro hsum
        have hfits : total.toNat + output.value.toNat < 2 ^ 64 := by omega
        refine ⟨total + output.value, by rw [Amount.add, if_pos hfits], ?_⟩
        rw [UInt64.toNat_add, Nat.mod_eq_of_lt hfits]
        omega

theorem totalOut_eq_ok_iff (outputs : List TxOut) (total : Amount) :
    totalOut (ε := ε) outputs = .ok total ↔
      total.toNat = ((outputs.map TxOut.value).map UInt64.toNat).sum := by
  rw [totalOut, foldlM_add_eq_ok_iff]
  simp

variable (crates : Crates D)

theorem checkLimit_eq_ok_iff (limit : Amount) (outputs : List TxOut) :
    checkLimit crates limit outputs = .ok () ↔
      ((outputs.map TxOut.value).map UInt64.toNat).sum ≤ limit.toNat := by
  rw [checkLimit, bind_eq_ok]
  constructor
  · rintro ⟨total, htotal, hcheck⟩
    rw [← (totalOut_eq_ok_iff outputs total).mp htotal]
    split at hcheck
    · cases hcheck
    next hle => exact UInt64.le_iff_toNat_le.mp (UInt64.not_lt.mp hle)
  · intro hle
    have hfits : ((outputs.map TxOut.value).map UInt64.toNat).sum < 2 ^ 64 :=
      Nat.lt_of_le_of_lt hle limit.toNat_lt
    refine ⟨UInt64.ofNat ((outputs.map TxOut.value).map UInt64.toNat).sum, ?_, ?_⟩
    · rw [totalOut_eq_ok_iff, UInt64.toNat_ofNat_of_lt' hfits]
    · rw [if_neg]
      rw [gt_iff_lt, UInt64.not_lt, UInt64.le_iff_toNat_le, UInt64.toNat_ofNat_of_lt' hfits]
      exact hle

theorem checkWhitelist_eq_ok_iff (network : Network) (whitelist : List Address) (outputs : List TxOut) :
    checkWhitelist crates network whitelist outputs = .ok () ↔
      (∀ address ∈ whitelist, network ∈ address.networks) ∧
        ∀ script ∈ outputs.map TxOut.scriptPubkey, ∃ address ∈ whitelist, address.scriptPubkey = script := by
  have hscriptOn (address : Address) (script : Script) :
      address.scriptOn crates network = .ok script ↔
        network ∈ address.networks ∧ script = address.scriptPubkey := by
    unfold Address.scriptOn
    split
    next h => simp [h, eq_comm]
    next h => simp [h]
  have hcheck (allowed : List Script) (output : TxOut) :
      (if output.scriptPubkey ∈ allowed then (.ok () : Except (Stop Pkcs11Error) Unit)
        else .error (.err (.policyViolation
          s!"output script {crates.foreignText (.scriptDebug output.scriptPubkey)} not in destination whitelist")))
        = .ok () ↔ output.scriptPubkey ∈ allowed := by
    split
    next h => simp [h]
    next h => simp [h]
  rw [checkWhitelist, bind_eq_ok]
  simp only [mapM_eq_ok hscriptOn, forM_eq_ok, hcheck]
  simp only [List.forall_mem_map]
  constructor
  · rintro ⟨_, ⟨hnetwork, rfl⟩, hscripts⟩
    exact ⟨hnetwork, fun output houtput => List.mem_map.mp (hscripts output houtput)⟩
  · rintro ⟨hnetwork, hscripts⟩
    exact ⟨_, ⟨hnetwork, rfl⟩, fun output houtput => List.mem_map.mpr (hscripts output houtput)⟩

/-- `check_against_psbt` accepts exactly the PSBTs that obey the policy, where the whitelist is one of
this network. -/
theorem checkAgainstPsbt_eq_ok_iff (policy : MinimalHsmPolicy) (psbt : Psbt K) (network : Network) :
    policy.checkAgainstPsbt crates psbt network = .ok () ↔
      policy.OnNetwork network ∧ psbt.Obeys policy := by
  unfold MinimalHsmPolicy.checkAgainstPsbt
  have hrules : policy.OnNetwork network ∧ psbt.Obeys policy ↔
      (∀ limit, policy.perTransactionLimit = some limit →
        checkLimit crates limit psbt.unsignedTx.output = .ok ()) ∧
      ∀ whitelist, policy.destinationWhitelist = some whitelist →
        checkWhitelist crates network whitelist psbt.unsignedTx.output = .ok () := by
    simp only [checkLimit_eq_ok_iff, checkWhitelist_eq_ok_iff]
    exact ⟨fun ⟨hnetwork, hobeys⟩ => ⟨hobeys.limit, fun whitelist h =>
        ⟨hnetwork whitelist h, hobeys.whitelist whitelist h⟩⟩,
      fun ⟨hlimit, hwhitelist⟩ => ⟨fun whitelist h => (hwhitelist whitelist h).1, hlimit,
        fun whitelist h => (hwhitelist whitelist h).2⟩⟩
  rw [hrules]
  cases policy.perTransactionLimit <;> cases policy.destinationWhitelist <;>
    simp [bind_eq_ok, Unique.exists_iff]

end EmvaultPkcs11
