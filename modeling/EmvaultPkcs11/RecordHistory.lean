import EmvaultPkcs11.KeyRemoval
import EmvaultPkcs11.LibraryWrites
import EmvaultPkcs11.PolicyReplacement
import EmvaultPkcs11.SigrateHistory

/-! The stored records against the history of what was saved. The store is a list of objects addressed by
texts made from the users' labels. Over any run of the operations that write it, and of those that make and
remove keys beside it, each record is where its label says, once, and holds what was saved last. -/

open Effect Writes

namespace EmvaultPkcs11

variable {K D R : Type}

/-! ### One record -/

/-- Under a label there is one object, which is read as the record, or none. -/
def Machine.Files (m : Machine K) (objectLabel : String) (fromSlice : Bytes → Except String R) :
    Option R → Prop
  | none => m.matching (recordQuery objectLabel) = []
  | some record => ∃ handle bytes,
      m.matching (recordQuery objectLabel) = [(handle, recordObject objectLabel bytes)] ∧
        fromSlice bytes = .ok record

namespace Machine.Files

variable {m m' : Machine K} {objectLabel : String} {fromSlice : Bytes → Except String R} {record? : Option R}

theorem length_le_one (h : m.Files objectLabel fromSlice record?) :
    (m.matching (recordQuery objectLabel)).length ≤ 1 := by
  cases record? with
  | none => simp [show m.matching (recordQuery objectLabel) = [] from h]
  | some record =>
      obtain ⟨handle, bytes, hmatching, _⟩ := h
      simp [hmatching]

theorem stored (h : m.Files objectLabel fromSlice record?) (hsm : Hsm K D) (absent : R) :
    hsm.stored objectLabel fromSlice absent m = .ok (record?.getD absent) := by
  cases record? with
  | none => simp [Hsm.stored, Hsm.records, show m.matching (recordQuery objectLabel) = [] from h]
  | some record =>
      obtain ⟨handle, bytes, hmatching, hbytes⟩ := h
      rw [Hsm.stored, Hsm.records, hmatching, List.map_singleton, List.headD_cons,
        hsm.recordOf_recordObject objectLabel hbytes]
      rfl

theorem of_matching (h : m.Files objectLabel fromSlice record?)
    (hsame : m'.matching (recordQuery objectLabel) = m.matching (recordQuery objectLabel)) :
    m'.Files objectLabel fromSlice record? := by
  cases record? with
  | none => exact hsame.trans h
  | some record =>
      obtain ⟨handle, bytes, hmatching, hbytes⟩ := h
      exact ⟨handle, bytes, hsame.trans hmatching, hbytes⟩

/-- An object found under the label is a record with that label. -/
theorem eq_recordObject (h : m.Files objectLabel fromSlice record?) {entry : ObjectHandle × Object K}
    (hentry : entry ∈ m.objects) (hmatches : entry.2.matches (recordQuery objectLabel) = true) :
    ∃ bytes, entry.2 = recordObject objectLabel bytes := by
  have hmem : entry ∈ m.matching (recordQuery objectLabel) := List.mem_filter.mpr ⟨hentry, hmatches⟩
  cases record? with
  | none =>
      rw [show m.matching (recordQuery objectLabel) = [] from h] at hmem
      cases hmem
  | some record =>
      obtain ⟨handle, bytes, hmatching, _⟩ := h
      rw [hmatching, List.mem_singleton] at hmem
      exact ⟨bytes, by rw [hmem]⟩

/-- Removing objects that are no records with the label leaves the label alone. -/
theorem filter (h : m.Files objectLabel fromSlice record?) {keep : ObjectHandle × Object K → Bool}
    (hobjects : m'.objects = m.objects.filter keep)
    (hkeep : ∀ handle bytes, keep (handle, recordObject objectLabel bytes) = true) :
    m'.Files objectLabel fromSlice record? := by
  apply h.of_matching
  rw [Machine.matching, hobjects, List.filter_filter, Machine.matching]
  apply List.filter_congr
  intro entry hentry
  cases hmatches : entry.2.matches (recordQuery objectLabel) with
  | false => rfl
  | true =>
      obtain ⟨bytes, hobject⟩ := h.eq_recordObject hentry hmatches
      have hkept := hkeep entry.1 bytes
      rw [← hobject] at hkept
      rw [hkept]
      rfl

end Machine.Files

namespace Machine.Replaces

variable {label : String} {bytes : Bytes} {m m' : Machine K} (h : Machine.Replaces label bytes m m')
include h

theorem files_self {fromSlice : Bytes → Except String R} {record : R} (hbytes : fromSlice bytes = .ok record) :
    m'.Files label fromSlice (some record) :=
  ⟨m.nextHandle, bytes, h.matching_self, hbytes⟩

theorem files_other {label' : String} (hne : label' ≠ label) {fromSlice : Bytes → Except String R}
    {record? : Option R} (hfiles : m.Files label' fromSlice record?) : m'.Files label' fromSlice record? := by
  apply hfiles.of_matching
  apply h.matching_other hne
  intro entry hentry hmatches hold
  obtain ⟨bytes', hobject⟩ := hfiles.eq_recordObject hentry hmatches
  rw [hobject, recordObject_matches] at hold
  exact hne hold.symm

end Machine.Replaces

/-! ### The calls and what they save -/

/-- `serde_json` writes every policy, and reads back what it has written. -/
def Serde.PolicyRoundTrip (serde : Serde) : Prop :=
  ∀ policy, ∃ bytes, serde.policyToVec policy = .ok bytes ∧ serde.policyFromSlice bytes = .ok policy

/-- A backend whose key ceremonies leave the data objects on the token as they are. -/
structure SparingBackend (hsm : Hsm K D) where
  backend : HsmBackend K D
  spares : ∀ label path network seed m,
    wp (Program.run hsm.exec (Pkcs11Signer.deriveFromSeed label path network backend seed))
      (fun _ m' => m'.dataObjects = m.dataObjects) (fun _ m' => m'.dataObjects = m.dataObjects) m

/-- The blanket backend is one, for every recipe. -/
def AttributeDerivation.sparingBackend (recipe : AttributeDerivation K D) (crates : Crates D) (hsm : Hsm K D) :
    SparingBackend hsm where
  backend := recipe.toHsmBackend crates
  spares label path network seed m :=
    wp_mono (recipe.wp_deriveFromSeed crates hsm label path network seed m)
      (fun _ _ h => (h.1.keeps fun _ => IsCeremonyObject.not_data).data)
      (fun _ _ h => (h.keeps fun _ => IsCeremonyObject.not_data).data)

/-- A call on a vault's token. -/
inductive VaultCall (hsm : Hsm K D) where
  | savePolicy (label : String) (policy : MinimalHsmPolicy)
  | saveSigrate (label : String) (counter : SigRateCounter)
  | checkAndRecordSigrate (label : String) (policy : MinimalHsmPolicy)
  | deriveFromSeed (label : String) (path : DerivationPath) (network : Network) (backend : SparingBackend hsm)
      (seed : Bytes)
  | deleteKey (label : String)

/-- A record that a call has saved. -/
inductive Save where
  | policy (label : String) (record : MinimalHsmPolicy)
  | counter (label : String) (record : SigRateCounter)
  deriving DecidableEq

/-- The policy saved for a label, if that is what was saved. -/
def Save.policyFor (label : String) : Save → Option MinimalHsmPolicy
  | .policy label' record => if label' = label then some record else none
  | .counter _ _ => none

/-- The counter saved for a label, if that is what was saved. -/
def Save.counterFor (label : String) : Save → Option SigRateCounter
  | .policy _ _ => none
  | .counter label' record => if label' = label then some record else none

section

variable (serde : Serde) {hsm : Hsm K D}

namespace VaultCall

def label : VaultCall hsm → String
  | .savePolicy label _ => label
  | .saveSigrate label _ => label
  | .checkAndRecordSigrate label _ => label
  | .deriveFromSeed label _ _ _ _ => label
  | .deleteKey label => label

def program : VaultCall hsm → TokenProgram K D Pkcs11Error Unit
  | .savePolicy label policy => do
      let _ ← EmvaultPkcs11.savePolicy serde label policy
      pure ()
  | .saveSigrate label counter => EmvaultPkcs11.saveSigrate serde label counter
  | .checkAndRecordSigrate label policy => EmvaultPkcs11.checkAndRecordSigrate serde label policy
  | .deriveFromSeed label path network backend seed => do
      let _ ← Pkcs11Signer.deriveFromSeed label path network backend.backend seed
      pure ()
  | .deleteKey label => EmvaultPkcs11.deleteKey label

/-- What the call saves if it succeeds, after the saves in `saved`. The check saves the last counter, less
what is older than an hour, with the time of the call. -/
def saves (saved : List Save) (m : Machine K) : VaultCall hsm → List Save
  | .savePolicy label policy => [.policy label policy]
  | .saveSigrate label counter => [.counter label counter]
  | .checkAndRecordSigrate label policy =>
      match policy.maxSignaturesPerHour with
      | none => []
      | some _ =>
          let now := hsm.sigrateTime label m
          let counter := (last (Save.counterFor label) saved).getD .default
          [.counter label ((counter.prune now).record now)]
  | .deriveFromSeed _ _ _ _ _ => []
  | .deleteKey _ => []

end VaultCall

/-- A token together with all that has been saved on it. -/
structure VaultState (K : Type) where
  machine : Machine K
  saved : List Save

/-- The state after one more call. -/
def VaultCall.step (s : VaultState K) (call : VaultCall hsm) : VaultState K :=
  match (Program.run hsm.exec (call.program serde)).run s.machine with
  | .ok _ m => ⟨m, s.saved ++ call.saves s.saved s.machine⟩
  | .error _ m => ⟨m, s.saved⟩

/-- The state after calls one after the other, from a token without history. -/
def vaultRun (m : Machine K) (calls : List (VaultCall hsm)) : VaultState K :=
  calls.foldl (VaultCall.step serde) ⟨m, []⟩

/-! ### The invariant -/

namespace VaultState

/-- The policy that was saved last for a label. -/
def policy (s : VaultState K) (label : String) : Option MinimalHsmPolicy := last (Save.policyFor label) s.saved

/-- The counter that was saved last for a label. -/
def counter (s : VaultState K) (label : String) : Option SigRateCounter := last (Save.counterFor label) s.saved

/-- Every label has what was saved last for it. -/
structure Archives (s : VaultState K) : Prop where
  policies : ∀ label, s.machine.Files (policyLabel label) serde.policyFromSlice (s.policy label)
  counters : ∀ label, s.machine.Files (sigrateLabel label) serde.counterFromSlice (s.counter label)

end VaultState

namespace VaultState.Archives

variable {serde} {s : VaultState K} (h : s.Archives serde)
include h

/-- A call that leaves the data objects alone keeps it. -/
theorem of_dataObjects {m : Machine K} (hdata : m.dataObjects = s.machine.dataObjects) :
    VaultState.Archives serde ⟨m, s.saved⟩ where
  policies label := (h.policies label).of_matching (Machine.matching_eq_of_dataObjects hdata (by simp [recordQuery]))
  counters label := (h.counters label).of_matching (Machine.matching_eq_of_dataObjects hdata (by simp [recordQuery]))

/-- So does one that removes a key. -/
theorem forget {label : String} {m : Machine K} (hforgets : Machine.Forgets label s.machine m) :
    VaultState.Archives serde ⟨m, s.saved⟩ where
  policies label' := (h.policies label').filter hforgets.objects fun _ _ => by
    simp [Object.matches, keyQuery, pubQuery, recordObject, recordTemplate]
  counters label' := (h.counters label').filter hforgets.objects fun _ _ => by
    simp [Object.matches, keyQuery, pubQuery, recordObject, recordTemplate]

/-- One that replaces a policy keeps it, with the policy among what was saved. -/
theorem save_policy {label : String} {policy : MinimalHsmPolicy} {bytes : Bytes} {m : Machine K}
    (hbytes : serde.policyFromSlice bytes = .ok policy)
    (hreplaces : Machine.Replaces (policyLabel label) bytes s.machine m) :
    VaultState.Archives serde ⟨m, s.saved ++ [.policy label policy]⟩ where
  policies label' := by
    rw [VaultState.policy, last_concat, Save.policyFor]
    dsimp only
    split
    next heq =>
      subst heq
      exact hreplaces.files_self hbytes
    next hne => exact hreplaces.files_other (policyLabel_injective.ne (Ne.symm hne)) (h.policies label')
  counters label' := by
    rw [VaultState.counter, last_concat]
    exact hreplaces.files_other (policyLabel_ne_sigrateLabel label label').symm (h.counters label')

/-- And one that replaces a counter. -/
theorem save_counter {label : String} {counter : SigRateCounter} {bytes : Bytes} {m : Machine K}
    (hbytes : serde.counterFromSlice bytes = .ok counter)
    (hreplaces : Machine.Replaces (sigrateLabel label) bytes s.machine m) :
    VaultState.Archives serde ⟨m, s.saved ++ [.counter label counter]⟩ where
  policies label' := by
    rw [VaultState.policy, last_concat]
    exact hreplaces.files_other (policyLabel_ne_sigrateLabel label' label) (h.policies label')
  counters label' := by
    rw [VaultState.counter, last_concat, Save.counterFor]
    dsimp only
    split
    next heq =>
      subst heq
      exact hreplaces.files_self hbytes
    next hne => exact hreplaces.files_other (sigrateLabel_injective.ne (Ne.symm hne)) (h.counters label')

end VaultState.Archives

/-! ### Runs -/

variable {serde}

/-- What holds however a call ends holds after it. -/
theorem VaultCall.step_of_wp {P : VaultState K → Prop} {s : VaultState K} {call : VaultCall hsm}
    (h : wp (Program.run hsm.exec (call.program serde))
      (fun _ m => P ⟨m, s.saved ++ call.saves s.saved s.machine⟩) (fun _ m => P ⟨m, s.saved⟩) s.machine) :
    P (call.step serde s) := by
  unfold VaultCall.step
  cases hrun : (Program.run hsm.exec (call.program serde)).run s.machine with
  | ok _ m => exact wp_of_run_ok h hrun
  | error e m => exact wp_of_run_error h hrun

/-- Step: every call keeps the store in line with what was saved. -/
theorem VaultState.Archives.step {s : VaultState K} (h : s.Archives serde) (hfree : hsm.FaultFree)
    (hpolicies : serde.PolicyRoundTrip) (hcounters : serde.CounterRoundTrip) (call : VaultCall hsm) :
    (call.step serde s).Archives serde := by
  apply VaultCall.step_of_wp
  cases call with
  | savePolicy label policy =>
      obtain ⟨bytes, htoVec, hfromSlice⟩ := hpolicies policy
      simp only [VaultCall.program, savePolicy, Program.wp_run_bind]
      refine wp_mono (wp_saveRecord hsm (policyLabel label) serde.policyToVec policy s.machine)
        (fun _ m h' => ?_) (fun e m h' => ?_)
      · obtain ⟨bytes', htoVec', hreplaces⟩ := h'
        obtain rfl : bytes' = bytes := Except.ok.inj (htoVec'.symm.trans htoVec)
        exact h.save_policy hfromSlice hreplaces
      · obtain ⟨reason, htoVec', _⟩ := h'.2 hfree
        rw [htoVec] at htoVec'
        cases htoVec'
  | saveSigrate label counter =>
      obtain ⟨bytes, htoVec, hfromSlice⟩ := hcounters counter
      simp only [VaultCall.program, saveSigrate, Program.wp_run_bind]
      refine wp_mono (wp_saveRecord hsm (sigrateLabel label) serde.counterToVec counter s.machine)
        (fun _ m h' => ?_) (fun e m h' => ?_)
      · obtain ⟨bytes', htoVec', hreplaces⟩ := h'
        obtain rfl : bytes' = bytes := Except.ok.inj (htoVec'.symm.trans htoVec)
        exact h.save_counter hfromSlice hreplaces
      · obtain ⟨reason, htoVec', _⟩ := h'.2 hfree
        rw [htoVec] at htoVec'
        cases htoVec'
  | checkAndRecordSigrate label policy =>
      simp only [VaultCall.program, VaultCall.saves]
      cases hmax : policy.maxSignaturesPerHour with
      | none =>
          simp only [checkAndRecordSigrate, hmax, List.append_nil]
          exact h
      | some max =>
          refine wp_mono (wp_checkSigrate hfree hcounters hmax ((h.counters label).stored hsm .default))
            (fun _ m h' => ?_) (fun e m h' => h.of_dataObjects h'.1.dataObjects)
          obtain ⟨_, c, bytes, _, _, _, hbytes, hreplaces⟩ := h'
          exact h.save_counter hbytes hreplaces
  | deriveFromSeed label path network backend seed =>
      simp only [VaultCall.program, VaultCall.saves, Program.wp_run_bind, List.append_nil]
      exact wp_mono (backend.spares label path network seed s.machine) (fun _ m hdata => h.of_dataObjects hdata)
        (fun e m hdata => h.of_dataObjects hdata)
  | deleteKey label =>
      simp only [VaultCall.program, VaultCall.saves, List.append_nil]
      exact wp_mono (wp_deleteKey hsm hfree label s.machine) (fun _ m hforgets => h.forget hforgets)
        (fun e m hfalse => hfalse.elim)

/-- Run: so does every sequence of calls, from a token without records. -/
theorem archives_vaultRun (hfree : hsm.FaultFree) (hpolicies : serde.PolicyRoundTrip)
    (hcounters : serde.CounterRoundTrip) {m : Machine K}
    (hempty : ∀ label, m.matching (recordQuery (policyLabel label)) = [] ∧
      m.matching (recordQuery (sigrateLabel label)) = []) (calls : List (VaultCall hsm)) :
    (vaultRun serde m calls).Archives serde := by
  have hrun (calls : List (VaultCall hsm)) :
      ∀ s : VaultState K, s.Archives serde → (calls.foldl (VaultCall.step serde) s).Archives serde := by
    induction calls with
    | nil => exact fun s h => h
    | cons call calls ih => exact fun s h => ih _ (h.step hfree hpolicies hcounters call)
  exact hrun calls _ ⟨fun label => (hempty label).1, fun label => (hempty label).2⟩

/-- A call saves nothing for labels other than its own. -/
theorem VaultCall.saves_other (call : VaultCall hsm) {label : String} (hne : label ≠ call.label)
    (saved : List Save) (m : Machine K) :
    ∀ save ∈ call.saves saved m, save.policyFor label = none ∧ save.counterFor label = none := by
  cases call with
  | savePolicy label' policy => simp [saves, Save.policyFor, Save.counterFor, show label' ≠ label from Ne.symm hne]
  | saveSigrate label' counter => simp [saves, Save.policyFor, Save.counterFor, show label' ≠ label from Ne.symm hne]
  | checkAndRecordSigrate label' policy =>
      simp only [saves]
      cases policy.maxSignaturesPerHour <;>
        simp [Save.policyFor, Save.counterFor, show label' ≠ label from Ne.symm hne]
  | deriveFromSeed label' path network backend seed => simp [saves]
  | deleteKey label' => simp [saves]

/-- So what was saved last for them stays. -/
theorem VaultCall.step_other (call : VaultCall hsm) {label : String} (hne : label ≠ call.label)
    (s : VaultState K) :
    (call.step serde s).policy label = s.policy label ∧ (call.step serde s).counter label = s.counter label := by
  have hnone := call.saves_other hne s.saved s.machine
  have hpolicy := (last_eq_none_iff _).mpr fun save hsave => (hnone save hsave).1
  have hcounter := (last_eq_none_iff _).mpr fun save hsave => (hnone save hsave).2
  apply VaultCall.step_of_wp (P := fun s' => s'.policy label = s.policy label ∧ s'.counter label = s.counter label)
  refine wp_mono (wp_run_eq _ _) (fun _ m _ => ?_) (fun _ m _ => ⟨rfl, rfl⟩)
  simp only [VaultState.policy, VaultState.counter, last_append, hpolicy, hcounter, Option.none_or, and_self]

/-- What a load returns is what was saved last. -/
theorem VaultState.Archives.loads {s : VaultState K} (h : s.Archives serde) (hfree : hsm.FaultFree)
    (label : String) :
    resultOf hsm (loadPolicy serde label) s.machine = .ok ((s.policy label).getD .permissive) ∧
      resultOf hsm (loadSigrate serde label) s.machine = .ok ((s.counter label).getD .default) := by
  have hserving : hsm.serving = hsm := by
    have hfault : hsm.fault = fun _ => none := funext hfree
    rw [Hsm.serving, ← hfault]
  have hpolicy := resultOf_loadRecord hsm (policyLabel label) .permissive serde.policyFromSlice s.machine
  have hcounter := resultOf_loadRecord hsm (sigrateLabel label) .default serde.counterFromSlice s.machine
  rw [hserving] at hpolicy hcounter
  exact ⟨hpolicy.trans ((h.policies label).stored hsm _), hcounter.trans ((h.counters label).stored hsm _)⟩

end

/-- After any calls that save records and make and remove keys, from a token without records, every label has
at most one policy and at most one counter, the loads return what was saved last for the label (or the
permissive policy and the empty counter), and no further call on one label changes what a load of another
returns. -/
theorem loads_return_last_saved (hsm : Hsm K D) (serde : Serde) (hfree : hsm.FaultFree)
    (hpolicies : serde.PolicyRoundTrip) (hcounters : serde.CounterRoundTrip) {m : Machine K}
    (hempty : ∀ label, m.matching (recordQuery (policyLabel label)) = [] ∧
      m.matching (recordQuery (sigrateLabel label)) = []) (calls : List (VaultCall hsm)) :
    let s := vaultRun serde m calls
    (∀ label, (s.machine.matching (recordQuery (policyLabel label))).length ≤ 1 ∧
      (s.machine.matching (recordQuery (sigrateLabel label))).length ≤ 1 ∧
      resultOf hsm (loadPolicy serde label) s.machine = .ok ((s.policy label).getD .permissive) ∧
      resultOf hsm (loadSigrate serde label) s.machine = .ok ((s.counter label).getD .default)) ∧
    ∀ (call : VaultCall hsm) label, label ≠ call.label →
      resultOf hsm (loadPolicy serde label) (call.step serde s).machine =
          resultOf hsm (loadPolicy serde label) s.machine ∧
        resultOf hsm (loadSigrate serde label) (call.step serde s).machine =
          resultOf hsm (loadSigrate serde label) s.machine := by
  intro s
  have h : s.Archives serde := archives_vaultRun hfree hpolicies hcounters hempty calls
  refine ⟨fun label => ⟨(h.policies label).length_le_one, (h.counters label).length_le_one, h.loads hfree label⟩,
    fun call label hne => ?_⟩
  have hstep := (h.step hfree hpolicies hcounters call).loads hfree label
  have hother : (call.step serde s).policy label = s.policy label ∧
      (call.step serde s).counter label = s.counter label := call.step_other hne s
  rw [hother.1, hother.2] at hstep
  exact ⟨hstep.1.trans (h.loads hfree label).1.symm, hstep.2.trans (h.loads hfree label).2.symm⟩

namespace IdealVendor

def allNetworks : List Network := [.bitcoin, .testnet, .testnet4, .signet, .regtest]

/-- An address as numbers. -/
def addressNumbers (address : Address) : List Nat × List Nat :=
  (address.scriptPubkey.map UInt8.toNat, address.networks.map allNetworks.idxOf)

/-- The address that numbers stand for. -/
def addressOf (numbers : List Nat × List Nat) : Address :=
  ⟨numbers.1.map UInt8.ofNat, numbers.2.map fun n => allNetworks.getD n .bitcoin⟩

theorem addressOf_addressNumbers (address : Address) : addressOf (addressNumbers address) = address := by
  have hnetwork (network : Network) : allNetworks.getD (allNetworks.idxOf network) .bitcoin = network := by
    cases network <;> rfl
  simp only [addressOf, addressNumbers, List.map_map, Function.comp_def, UInt8.ofNat_toNat, hnetwork, List.map_id']

/-- Records written as strokes, with whitelists. -/
def archive : Serde :=
  { serde with
    policyToVec := fun policy => .ok (strokes
      [policy.perTransactionLimit.elim 0 fun limit => limit.toNat + 1,
        policy.maxSignaturesPerHour.elim 0 fun ceiling => ceiling.toNat + 1,
        Encodable.encode (policy.destinationWhitelist.map (List.map addressNumbers))])
    policyFromSlice := fun bytes =>
      match readStrokes 0 bytes with
      | [limit, ceiling, whitelist] =>
          match (Encodable.decode whitelist : Option (Option (List (List Nat × List Nat)))) with
          | some addresses => .ok
              ⟨if limit = 0 then none else some (UInt64.ofNat (limit - 1)),
                if ceiling = 0 then none else some (UInt32.ofNat (ceiling - 1)),
                addresses.map (List.map addressOf)⟩
          | none => .error "not a whitelist"
      | _ => .error "not a policy" }

theorem archive_policyRoundTrip : archive.PolicyRoundTrip := by
  rintro ⟨limit, ceiling, whitelist⟩
  refine ⟨_, rfl, ?_⟩
  simp only [archive, readStrokes_strokes, Encodable.encodek, Option.map_map]
  have hwhitelist : List.map addressOf ∘ List.map addressNumbers = id := by
    funext addresses
    simp only [Function.comp_apply, List.map_map, Function.comp_def, addressOf_addressNumbers, List.map_id', id_eq]
  rw [hwhitelist, Option.map_id, id_eq]
  cases limit <;> cases ceiling <;> simp

theorem archive_counterRoundTrip : archive.CounterRoundTrip := counterRoundTrip

/-- Policies for two labels, one of which ends like the label of a policy, and a key made and removed. -/
def vaultCalls : List (VaultCall token) :=
  [.savePolicy "a" ⟨some 5, none, none⟩, .savePolicy "a.policy" ⟨none, some 1, none⟩,
    .deriveFromSeed "a" [.normal 0] .bitcoin (recipe.sparingBackend crates token) [], .deleteKey "a"]

end IdealVendor

open IdealVendor in
/-- The policy of the first label is still in force, and one that has none is permissive. -/
theorem first_policy_still_loaded :
    resultOf token (loadPolicy archive "a") (vaultRun archive .empty vaultCalls).machine =
        .ok ⟨some 5, none, none⟩ ∧
      resultOf token (loadPolicy archive "b") (vaultRun archive .empty vaultCalls).machine = .ok .permissive := by
  have hloads := (loads_return_last_saved token archive (fun _ => rfl) archive_policyRoundTrip
    archive_counterRoundTrip (m := .empty) (fun _ => ⟨rfl, rfl⟩) vaultCalls).1
  have hfirst : (vaultRun archive .empty vaultCalls).policy "a" = some ⟨some 5, none, none⟩ := by decide +kernel
  have hother : (vaultRun archive .empty vaultCalls).policy "b" = none := by decide +kernel
  have hload := (hloads "a").2.2.1
  have hload' := (hloads "b").2.2.1
  rw [hfirst] at hload
  rw [hother] at hload'
  exact ⟨hload, hload'⟩

end EmvaultPkcs11
