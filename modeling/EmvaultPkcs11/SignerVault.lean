import EmvaultPkcs11.CoreSigner
import EmvaultPkcs11.PolicyExactness
import EmvaultPkcs11.SignerLifetime
import EmvaultPkcs11.SigningOutcome
import EmvaultPkcs11.SigningProgram

/-! The life of a signer: any calls on it and its clones, one after the other as its mutex lets them. What its
calls may return is said by a vault that has nothing but a policy and a flag, and every run of the signer is one
of the vault. So what holds of the vault over its runs holds of the signer. -/

open Effect

namespace EmvaultPkcs11

variable {K D X T ε α : Type}

/-! ### Calls and replies -/

/-- A call on a signer or a clone of it. -/
inductive SignerCall (K : Type) where
  | policy
  | setPolicy (policy : MinimalHsmPolicy)
  | healthCheck
  | signTransaction (psbt : Psbt K)
  | signPset (pset : Pset K)

/-- What a call returns; a signing call also leaves its transaction to the caller, changed or not. -/
inductive SignerReply (K : Type) where
  | policy (result : Except (Stop Pkcs11Error) MinimalHsmPolicy)
  | setPolicy (result : Except (Stop Pkcs11Error) Unit)
  | healthCheck (result : Except (Stop SignerError) SignerHealth)
  | signTransaction (result : Except (Stop BdkSignerError) Unit) (psbt : Psbt K)
  | signPset (result : Except (Stop PsetError) Nat) (pset : Pset K)

/-- What a signer and its clones share. -/
structure SharedState (K : Type) where
  machine : Machine K
  poisoned : Bool

/-- Run a call on a transaction, and split what it leaves. -/
def SharedState.runOn (s : SharedState K) (x : SignM K T ε α) (transaction : T) :
    Except (Stop ε) α × T × SharedState K :=
  match x.run ⟨s.machine, s.poisoned, transaction, []⟩ with
  | .ok a t => (.ok a, t.transaction, ⟨t.machine, t.poisoned⟩)
  | .error e t => (.error e, t.transaction, ⟨t.machine, t.poisoned⟩)

section

variable (signer : Pkcs11Signer K D) (crates : Crates D) (elements : ElementsCrate K D X) (hsm : Hsm K D)
  (serde : Serde) (slot : Slot)

/-- One call. -/
def SharedState.serve (s : SharedState K) : SignerCall K → SignerReply K × SharedState K
  | .policy =>
      let after := s.runOn (signer.policy hsm serde) ()
      (.policy after.1, after.2.2)
  | .setPolicy policy =>
      let after := s.runOn (signer.setPolicy hsm serde policy) ()
      (.setPolicy after.1, after.2.2)
  | .healthCheck =>
      let after := s.runOn (healthCheck crates hsm slot) ()
      (.healthCheck after.1, after.2.2)
  | .signTransaction psbt =>
      let after := s.runOn (signer.signTransaction crates hsm serde) psbt
      (.signTransaction after.1 after.2.1, after.2.2)
  | .signPset pset =>
      let after := s.runOn (signer.signPset crates elements hsm serde) pset
      (.signPset after.1 after.2.1, after.2.2)

/-- Calls one after the other. -/
def SharedState.serveAll (s : SharedState K) : List (SignerCall K) → List (SignerReply K) × SharedState K
  | [] => ([], s)
  | call :: calls =>
      let first := s.serve signer crates elements hsm serde slot call
      let rest := SharedState.serveAll first.2 calls
      (first.1 :: rest.1, rest.2)

end

/-! ### The vault -/

/-- What a signer is to its callers: the policy in force, and whether it is out of order. -/
structure Vault where
  policy : MinimalHsmPolicy
  poisoned : Bool

namespace Vault

variable (crates : Crates D) (network : Network)

/-- What the vault may reply to a call, and what it is then. Out of order it refuses every call. Otherwise it
gives the policy in force, replaces it, and lets a transaction be signed only after the policy has passed it; it
gets out of order only by a policy check that panics. -/
inductive Step : Vault → SignerCall K → SignerReply K → Vault → Prop
  | noPolicy (policy : MinimalHsmPolicy) :
      Step ⟨policy, true⟩ .policy (.policy (.error (.panic lockPanic))) ⟨policy, true⟩
  | noSetPolicy (policy new : MinimalHsmPolicy) :
      Step ⟨policy, true⟩ (.setPolicy new) (.setPolicy (.error (.panic lockPanic))) ⟨policy, true⟩
  | noHealthCheck (policy : MinimalHsmPolicy) :
      Step ⟨policy, true⟩ .healthCheck (.healthCheck (.error (.err (.backend "Pkcs11Signer mutex poisoned"))))
        ⟨policy, true⟩
  | noTransaction (policy : MinimalHsmPolicy) (psbt : Psbt K) :
      Step ⟨policy, true⟩ (.signTransaction psbt)
        (.signTransaction (.error (.err (.external "Pkcs11Signer mutex poisoned"))) psbt) ⟨policy, true⟩
  | noPset (policy : MinimalHsmPolicy) (pset : Pset K) :
      Step ⟨policy, true⟩ (.signPset pset)
        (.signPset (.error (.err (.signerBackend "Pkcs11Signer mutex poisoned"))) pset) ⟨policy, true⟩
  | policy (policy : MinimalHsmPolicy) : Step ⟨policy, false⟩ .policy (.policy (.ok policy)) ⟨policy, false⟩
  | setPolicy (policy new : MinimalHsmPolicy) :
      Step ⟨policy, false⟩ (.setPolicy new) (.setPolicy (.ok ())) ⟨new, false⟩
  | healthCheck (policy : MinimalHsmPolicy) (result : Except (Stop SignerError) SignerHealth)
      (hcalm : Calm result) : Step ⟨policy, false⟩ .healthCheck (.healthCheck result) ⟨policy, false⟩
  | passed (policy : MinimalHsmPolicy) (psbt psbt' : Psbt K) (result : Except (Stop BdkSignerError) Unit)
      (hcheck : policy.checkAgainstPsbt crates psbt network = .ok ()) (hcalm : Calm result) :
      Step ⟨policy, false⟩ (.signTransaction psbt) (.signTransaction result psbt') ⟨policy, false⟩
  | denied (policy : MinimalHsmPolicy) (psbt : Psbt K) (e : Pkcs11Error)
      (hcheck : policy.checkAgainstPsbt crates psbt network = .error (.err e)) :
      Step ⟨policy, false⟩ (.signTransaction psbt)
        (.signTransaction (.error (.err (.external (e.toText crates)))) psbt) ⟨policy, false⟩
  | overflowed (policy : MinimalHsmPolicy) (psbt : Psbt K) (message : String)
      (hcheck : policy.checkAgainstPsbt crates psbt network = .error (.panic message)) :
      Step ⟨policy, false⟩ (.signTransaction psbt) (.signTransaction (.error (.panic message)) psbt) ⟨policy, true⟩
  | pset (policy : MinimalHsmPolicy) (pset pset' : Pset K) (result : Except (Stop PsetError) Nat)
      (hcalm : Calm result) :
      Step ⟨policy, false⟩ (.signPset pset) (.signPset result pset') ⟨policy, false⟩

/-- A run of the vault, call by call. -/
inductive Run : Vault → List (SignerCall K) → List (SignerReply K) → Vault → Prop
  | nil (v : Vault) : Run v [] [] v
  | cons {v v' v'' : Vault} {call : SignerCall K} {reply : SignerReply K} {calls : List (SignerCall K)}
      {replies : List (SignerReply K)} (hstep : Step crates network v call reply v')
      (hrest : Run v' calls replies v'') : Run v (call :: calls) (reply :: replies) v''

end Vault

/-! ### What a vault does over its runs -/

/-- The policy a call puts in force, if it does. -/
def SignerCall.newPolicy : SignerCall K → Option MinimalHsmPolicy
  | .setPolicy new => some new
  | _ => none

/-- The policy in force after some calls, none of which was refused. -/
def inForce (policy : MinimalHsmPolicy) (calls : List (SignerCall K)) : MinimalHsmPolicy :=
  calls.foldl (fun policy call => call.newPolicy.getD policy) policy

/-- The policy has a limit, and the outputs do not fit 64 bits together. -/
def MinimalHsmPolicy.Overflows (policy : MinimalHsmPolicy) (psbt : Psbt K) : Prop :=
  policy.perTransactionLimit ≠ none ∧ 2 ^ 64 ≤ psbt.outputTotal

/-- Among some calls, a transaction overflowed the limit in force. -/
def OverflowedAmong (policy : MinimalHsmPolicy) (calls : List (SignerCall K)) : Prop :=
  ∃ before psbt after, calls = before ++ .signTransaction psbt :: after ∧ (inForce policy before).Overflows psbt

theorem overflowedAmong_cons {policy : MinimalHsmPolicy} {call : SignerCall K} {calls : List (SignerCall K)} :
    OverflowedAmong policy (call :: calls) ↔
      (∃ psbt, call = .signTransaction psbt ∧ policy.Overflows psbt) ∨
        OverflowedAmong (call.newPolicy.getD policy) calls := by
  constructor
  · intro h
    obtain ⟨before, psbt, after, hcalls, hoverflows⟩ := h
    cases before with
    | nil => exact Or.inl ⟨psbt, (List.cons.inj hcalls).1, hoverflows⟩
    | cons first before =>
        obtain ⟨rfl, rfl⟩ := List.cons.inj hcalls
        exact Or.inr ⟨before, psbt, after, rfl, hoverflows⟩
  · intro h
    obtain ⟨psbt, rfl, hoverflows⟩ | ⟨before, psbt, after, rfl, hoverflows⟩ := h
    · exact ⟨[], psbt, calls, rfl, hoverflows⟩
    · exact ⟨call :: before, psbt, after, rfl, hoverflows⟩

namespace Vault

variable {crates : Crates D} {network : Network} {v v' : Vault}

/-- The check panics exactly on a transaction that overflows the limit. -/
theorem calm_iff_not_overflows (policy : MinimalHsmPolicy) (psbt : Psbt K) :
    Calm (policy.checkAgainstPsbt crates psbt network) ↔ ¬policy.Overflows psbt := by
  rw [checkAgainstPsbt_calm_iff, MinimalHsmPolicy.Overflows, not_and_or, not_not, Nat.not_le]

/-- One step: a vault in order puts in force what the call says, and gets out of order by a transaction that
overflows the limit. -/
theorem Step.of_in_order {call : SignerCall K} {reply : SignerReply K} (h : Step crates network v call reply v')
    (horder : v.poisoned = false) :
    v'.policy = call.newPolicy.getD v.policy ∧
      (v'.poisoned = true ↔ ∃ psbt, call = .signTransaction psbt ∧ v.policy.Overflows psbt) := by
  have hother {call : SignerCall K} (hcall : ∀ psbt, call ≠ .signTransaction psbt) (policy : MinimalHsmPolicy) :
      false = true ↔ ∃ psbt, call = .signTransaction psbt ∧ policy.Overflows psbt :=
    iff_of_false Bool.false_ne_true fun ⟨psbt, heq, _⟩ => hcall psbt heq
  have hchecked {policy : MinimalHsmPolicy} {psbt : Psbt K} (poisoned : Bool)
      (hcalm : Calm (policy.checkAgainstPsbt crates psbt network) ↔ poisoned = false) :
      poisoned = true ↔ ∃ psbt', SignerCall.signTransaction psbt = .signTransaction psbt' ∧
        policy.Overflows psbt' := by
    rw [calm_iff_not_overflows] at hcalm
    simp only [SignerCall.signTransaction.injEq, exists_eq_left']
    rw [← not_iff_not, hcalm, Bool.not_eq_true]
  cases h with
  | noPolicy | noSetPolicy | noHealthCheck | noTransaction | noPset => cases horder
  | policy policy => exact ⟨rfl, hother (by simp) policy⟩
  | setPolicy policy new => exact ⟨rfl, hother (by simp) policy⟩
  | healthCheck policy => exact ⟨rfl, hother (by simp) policy⟩
  | pset policy => exact ⟨rfl, hother (by simp) policy⟩
  | passed policy psbt psbt' result hcheck =>
      exact ⟨rfl, hchecked false (iff_of_true (hcheck ▸ .ok ()) rfl)⟩
  | denied policy psbt e hcheck =>
      exact ⟨rfl, hchecked false (iff_of_true (hcheck ▸ .err e) rfl)⟩
  | overflowed policy psbt message hcheck =>
      exact ⟨rfl, hchecked true (iff_of_false (fun hcalm => hcalm message hcheck) Bool.true_eq_false_eq_False)⟩

/-- Out of order a vault stays what it is. -/
theorem Step.of_out_of_order {call : SignerCall K} {reply : SignerReply K}
    (h : Step crates network v call reply v') (horder : v.poisoned = true) : v' = v := by
  cases h with
  | noPolicy | noSetPolicy | noHealthCheck | noTransaction | noPset => rfl
  | policy | setPolicy | healthCheck | passed | denied | overflowed | pset => cases horder

/-- A run of a vault: it is out of order exactly if a transaction overflowed the limit that was in force, and
otherwise has the policy that was put in force last. -/
theorem Run.ends {calls : List (SignerCall K)} {replies : List (SignerReply K)}
    (h : Run crates network v calls replies v') :
    (v'.poisoned = true ↔ v.poisoned = true ∨ OverflowedAmong v.policy calls) ∧
      (v'.poisoned = false → v'.policy = inForce v.policy calls) := by
  induction h with
  | nil v =>
      refine ⟨(or_iff_left fun h => ?_).symm, fun _ => rfl⟩
      obtain ⟨before, psbt, after, hcalls, _⟩ := h
      simp at hcalls
  | @cons v v₁ v₂ call reply calls replies hstep _ ih =>
      cases horder : v.poisoned with
      | true =>
          obtain rfl := hstep.of_out_of_order horder
          refine ⟨iff_of_true (ih.1.mpr (Or.inl horder)) (Or.inl rfl), fun hend => ?_⟩
          rw [ih.1.mpr (Or.inl horder)] at hend
          cases hend
      | false =>
          obtain ⟨hpolicy, hpoisoned⟩ := hstep.of_in_order horder
          rw [hpolicy, hpoisoned] at ih
          refine ⟨?_, ih.2⟩
          rw [ih.1, overflowedAmong_cons]
          simp only [Bool.false_eq_true, false_or]

end Vault

/-- The signer's state is that of the vault. -/
def Vault.Represents (serde : Serde) (label : String) (v : Vault) (s : SharedState K) : Prop :=
  s.machine.Filed serde label v.policy ∧ s.poisoned = v.poisoned

/-! ### The signer is such a vault -/

section

variable {signer : Pkcs11Signer K D} {crates : Crates D} {elements : ElementsCrate K D X} {hsm : Hsm K D}
  {serde : Serde} {slot : Slot} {v : Vault} {s : SharedState K}

/-- What holds however a call ends holds of what it leaves. -/
theorem SharedState.runOn_of_wp {x : SignM K T ε α} {transaction : T}
    {P : Except (Stop ε) α → T → SharedState K → Prop}
    (h : wp x (fun a t => P (.ok a) t.transaction ⟨t.machine, t.poisoned⟩)
      (fun e t => P (.error e) t.transaction ⟨t.machine, t.poisoned⟩) ⟨s.machine, s.poisoned, transaction, []⟩) :
    P (s.runOn x transaction).1 (s.runOn x transaction).2.1 (s.runOn x transaction).2.2 := by
  unfold SharedState.runOn
  unfold wp at h
  cases hrun : x.run ⟨s.machine, s.poisoned, transaction, []⟩ with
  | ok a t => simpa only [hrun] using h
  | error e t => simpa only [hrun] using h

theorem runOn_expectLock_poisoned (h : s.poisoned = true) (body : SignM K T ε α) (transaction : T) :
    s.runOn (expectLock body) transaction =
      (.error (.panic lockPanic), transaction, s) := by
  obtain ⟨machine, poisoned⟩ := s
  obtain rfl : poisoned = true := h
  rfl

theorem runOn_withLock_poisoned (h : s.poisoned = true) (refusal : ε) (body : SignM K T ε α) (transaction : T) :
    s.runOn (withLock refusal body) transaction = (.error (.err refusal), transaction, s) := by
  obtain ⟨machine, poisoned⟩ := s
  obtain rfl : poisoned = true := h
  rfl

theorem runOn_healthCheck_poisoned (h : s.poisoned = true) :
    s.runOn (healthCheck crates hsm slot) () =
      (.error (.err (.backend "Pkcs11Signer mutex poisoned")), (), s) := by
  obtain ⟨machine, poisoned⟩ := s
  obtain rfl : poisoned = true := h
  rfl

/-- A mutex that is not poisoned lets a call run. -/
theorem wp_expectLock {body : SignM K T ε α} {Q : α → SignState K T → Prop} {E : Stop ε → SignState K T → Prop}
    {t : SignState K T} (hfree : t.poisoned = false)
    (hbody : wp body Q (fun e t' => (∃ a, e = .err a) ∧ E e t') t) :
    wp (expectLock body) Q E t := by
  unfold expectLock wp
  unfold wp at hbody
  simp only [EStateM.run, hfree, Bool.false_eq_true, if_false] at hbody ⊢
  cases hrun : body t with
  | ok a t' => simpa only [hrun] using hbody
  | error e t' =>
      simp only [hrun] at hbody
      obtain ⟨⟨a, rfl⟩, hE⟩ := hbody
      exact hE

variable (crates elements slot) (hfree : hsm.FaultFree)
include hfree

theorem serve_policy (h : s.machine.Filed serde signer.label v.policy) (hlock : s.poisoned = false) :
    (s.serve signer crates elements hsm serde slot .policy).1 = .policy (.ok v.policy) ∧
      Vault.Represents serde signer.label ⟨v.policy, false⟩
        (s.serve signer crates elements hsm serde slot .policy).2 := by
  apply SharedState.runOn_of_wp (P := fun result _ s' =>
    SignerReply.policy (K := K) result = .policy (.ok v.policy) ∧
      Vault.Represents serde signer.label ⟨v.policy, false⟩ s')
  apply wp_expectLock hlock
  rw [onToken, wp_mapErr, wp_onPart]
  refine wp_mono (wp_loadPolicy_filed hfree h) (fun loaded m h' => ?_) fun _ _ h' => h'.elim
  obtain ⟨rfl, hticked⟩ := h'
  exact ⟨rfl, h.of_dataObjects hticked.dataObjects, hlock⟩

theorem serve_setPolicy (hpolicies : serde.PolicyRoundTrip) (h : s.machine.Filed serde signer.label v.policy)
    (hlock : s.poisoned = false) (new : MinimalHsmPolicy) :
    (s.serve signer crates elements hsm serde slot (.setPolicy new)).1 = .setPolicy (.ok ()) ∧
      Vault.Represents serde signer.label ⟨new, false⟩
        (s.serve signer crates elements hsm serde slot (.setPolicy new)).2 := by
  apply SharedState.runOn_of_wp (P := fun result _ s' =>
    SignerReply.setPolicy (K := K) result = .setPolicy (.ok ()) ∧
      Vault.Represents serde signer.label ⟨new, false⟩ s')
  apply wp_expectLock hlock
  rw [wp_bind, onToken, wp_mapErr, wp_onPart]
  refine wp_mono (wp_savePolicy_filed hfree hpolicies h new) (fun _ m h' => ?_) fun _ _ h' => h'.elim
  exact ⟨rfl, h', hlock⟩

/-- Recording the rate keeps what the token holds of the signer. -/
theorem wp_recordIfSigned_filed (hcounters : serde.CounterRoundTrip) {policy : MinimalHsmPolicy}
    {t : SignState K T} (h : t.machine.Filed serde signer.label policy) (hlock : t.poisoned = false)
    (fail : String → ε) (ceiling : MinimalHsmPolicy) (signedAny : Bool) :
    wp (signer.recordIfSigned crates hsm serde fail ceiling signedAny : SignM K T ε Unit)
      (fun _ t' => t'.machine.Filed serde signer.label policy ∧ t'.poisoned = false)
      (fun e t' => (∃ a, e = .err a) ∧ t'.machine.Filed serde signer.label policy ∧ t'.poisoned = false) t := by
  unfold Pkcs11Signer.recordIfSigned
  split
  · rw [onToken, wp_mapErr, wp_onPart]
    refine wp_mono (wp_checkAndRecordSigrate_filed hfree hcounters h ceiling) (fun _ m h' => ⟨h', hlock⟩)
      (fun e m h' => ?_)
    obtain ⟨⟨a, rfl⟩, hfiled⟩ := h'
    exact ⟨⟨_, rfl⟩, hfiled, hlock⟩
  · exact ⟨h, hlock⟩

/-- A call that signs has loaded the policy, and the policy has passed the transaction. Where the policy refuses
it, or panics, the call ends so. -/
theorem wp_signInputs_filed (hkeys : signer.backend.KeysOnly hsm) {policy : MinimalHsmPolicy}
    {t : SignState K (Psbt K)} (h : t.machine.Filed serde signer.label policy) (hlock : t.poisoned = false) :
    wp (signer.signInputs crates hsm serde)
      (fun _ t' => policy.checkAgainstPsbt crates t.transaction signer.network = .ok () ∧
        t'.machine.Filed serde signer.label policy ∧ t'.poisoned = false)
      (fun e t' => (t'.machine.Filed serde signer.label policy ∧ t'.poisoned = false) ∧
        ((policy.checkAgainstPsbt crates t.transaction signer.network = .ok () ∧ ∃ a, e = .err a) ∨
          ∃ stop, policy.checkAgainstPsbt crates t.transaction signer.network = .error stop ∧
            e = stop.map (fun e => .external (e.toText crates)) ∧ t'.transaction = t.transaction)) t := by
  have hsigned : wp (signer.signInputs crates hsm serde)
      (fun _ t' => policy.checkAgainstPsbt crates t.transaction signer.network = .ok () ∧
        t'.machine.Filed serde signer.label policy)
      (fun e t' => t'.machine.Filed serde signer.label policy ∧
        ((policy.checkAgainstPsbt crates t.transaction signer.network = .ok () ∧ ∃ a, e = .err a) ∨
          ∃ stop, policy.checkAgainstPsbt crates t.transaction signer.network = .error stop ∧
            e = stop.map (fun e => .external (e.toText crates)) ∧ t'.transaction = t.transaction)) t := by
    unfold Pkcs11Signer.signInputs
    rw [wp_bind, onToken, wp_mapErr, wp_onPart]
    refine wp_mono (wp_loadPolicy_filed hfree h) (fun loaded m h' => ?_) fun _ _ h' => h'.elim
    obtain ⟨rfl, hticked⟩ := h'
    have hloaded := h.of_dataObjects hticked.dataObjects
    simp only [wp_bind, wp_get]
    cases hcheck : loaded.checkAgainstPsbt crates t.transaction signer.network with
    | error stop => exact ⟨hloaded, Or.inr ⟨stop, rfl, rfl, rfl⟩⟩
    | ok _ =>
        refine (wp_ofResult _ _ _ _).mpr ⟨fun _ _ => ?_, fun _ he => by cases he⟩
        have hidle : (hkeys.contract m).idle m := rfl
        refine wp_mono ((hkeys.contract m).wp_inputLoop (.refl { t with machine := m }) hidle)
          (fun _ t' h' => ?_) fun e t' h' => ?_
        · obtain ⟨_, _, hdata, _⟩ := h'
          exact ⟨rfl, hloaded.of_dataObjects hdata⟩
        · obtain ⟨_, _, _, hdata, hcalm⟩ := h'
          exact ⟨hloaded.of_dataObjects hdata, Or.inl ⟨rfl, hcalm trivial⟩⟩
  exact wp_mono (wp_and hsigned (realizes_signInputs.leaves t))
    (fun _ t' h' => ⟨h'.1.1, h'.1.2, h'.2.trans hlock⟩) fun _ t' h' => ⟨⟨h'.1.1, h'.2.trans hlock⟩, h'.1.2⟩

/-- A PSET is signed whatever the policy says. -/
theorem wp_signPsetInputs_filed (hkeys : signer.backend.KeysOnly hsm) {policy : MinimalHsmPolicy}
    {t : SignState K (Pset K)} (h : t.machine.Filed serde signer.label policy) (hlock : t.poisoned = false) :
    wp (signer.signPsetInputs crates elements hsm serde)
      (fun _ t' => t'.machine.Filed serde signer.label policy ∧ t'.poisoned = false)
      (fun e t' => (∃ a, e = .err a) ∧ t'.machine.Filed serde signer.label policy ∧ t'.poisoned = false) t := by
  have hsigned : wp (signer.signPsetInputs crates elements hsm serde)
      (fun _ t' => t'.machine.Filed serde signer.label policy)
      (fun e t' => (∃ a, e = .err a) ∧ t'.machine.Filed serde signer.label policy) t := by
    unfold Pkcs11Signer.signPsetInputs
    rw [wp_bind, onToken, wp_mapErr, wp_onPart]
    refine wp_mono (wp_loadPolicy_filed hfree h) (fun loaded m h' => ?_) fun _ _ h' => h'.elim
    obtain ⟨rfl, hticked⟩ := h'
    have hloaded := h.of_dataObjects hticked.dataObjects
    simp only [wp_bind, wp_get, wp_orErr]
    refine ⟨fun unsignedTx _ => ?_, fun e _ => ⟨⟨e, rfl⟩, hloaded⟩⟩
    have hidle : (hkeys.contract m).idle m := rfl
    refine wp_mono ((hkeys.contract m).wp_psetInputLoop unsignedTx (.refl { t with machine := m }) hidle)
      (fun _ t' h' => ?_) fun e t' h' => ?_
    · obtain ⟨_, _, hdata, _⟩ := h'
      exact hloaded.of_dataObjects hdata
    · obtain ⟨_, _, _, hdata, hcalm⟩ := h'
      exact ⟨hcalm trivial, hloaded.of_dataObjects hdata⟩
  exact wp_mono (wp_and hsigned (realizes_signPsetInputs.leaves t)) (fun _ t' h' => ⟨h'.1, h'.2.trans hlock⟩)
    fun _ t' h' => ⟨h'.1.1, h'.1.2, h'.2.trans hlock⟩

/-- What one call replies to and leaves behind, a step of the vault allows. -/
def StepsTo (crates : Crates D) (serde : Serde) (signer : Pkcs11Signer K D) (v : Vault) (call : SignerCall K)
    (reply : SignerReply K) (s : SharedState K) : Prop :=
  ∃ v', Vault.Step crates signer.network v call reply v' ∧ v'.Represents serde signer.label s

omit hfree in
/-- A call that finds the mutex poisoned changes nothing. -/
theorem serve_poisoned (h : v.Represents serde signer.label s) (hlock : s.poisoned = true) (call : SignerCall K) :
    StepsTo crates serde signer v call (s.serve signer crates elements hsm serde slot call).1
      (s.serve signer crates elements hsm serde slot call).2 := by
  obtain ⟨policy, poisoned⟩ := v
  obtain rfl : poisoned = true := h.2.symm.trans hlock
  refine ⟨⟨policy, true⟩, ?_, ?_⟩
  · cases call with
    | policy =>
        simp only [SharedState.serve, Pkcs11Signer.policy, runOn_expectLock_poisoned hlock]
        exact .noPolicy policy
    | setPolicy new =>
        simp only [SharedState.serve, Pkcs11Signer.setPolicy, runOn_expectLock_poisoned hlock]
        exact .noSetPolicy policy new
    | healthCheck =>
        simp only [SharedState.serve, runOn_healthCheck_poisoned hlock]
        exact .noHealthCheck policy
    | signTransaction psbt =>
        simp only [SharedState.serve, Pkcs11Signer.signTransaction, runOn_withLock_poisoned hlock]
        exact .noTransaction policy psbt
    | signPset pset =>
        simp only [SharedState.serve, Pkcs11Signer.signPset, runOn_withLock_poisoned hlock]
        exact .noPset policy pset
  · cases call with
    | policy =>
        simp only [SharedState.serve, Pkcs11Signer.policy, runOn_expectLock_poisoned hlock]
        exact h
    | setPolicy new =>
        simp only [SharedState.serve, Pkcs11Signer.setPolicy, runOn_expectLock_poisoned hlock]
        exact h
    | healthCheck =>
        simp only [SharedState.serve, runOn_healthCheck_poisoned hlock]
        exact h
    | signTransaction psbt =>
        simp only [SharedState.serve, Pkcs11Signer.signTransaction, runOn_withLock_poisoned hlock]
        exact h
    | signPset pset =>
        simp only [SharedState.serve, Pkcs11Signer.signPset, runOn_withLock_poisoned hlock]
        exact h

omit hfree in
theorem serve_healthCheck {policy : MinimalHsmPolicy} (h : s.machine.Filed serde signer.label policy)
    (hlock : s.poisoned = false) :
    StepsTo crates serde signer ⟨policy, false⟩ .healthCheck
      (s.serve signer crates elements hsm serde slot .healthCheck).1
      (s.serve signer crates elements hsm serde slot .healthCheck).2 := by
  apply SharedState.runOn_of_wp (P := fun result _ s' =>
    StepsTo crates serde signer ⟨policy, false⟩ .healthCheck (.healthCheck result) s')
  have hends (result : Except (Stop SignerError) SignerHealth) (hcalm : Calm result) {m : Machine K}
      (hdata : m.dataObjects = s.machine.dataObjects) :
      StepsTo crates serde signer ⟨policy, false⟩ .healthCheck (.healthCheck result) ⟨m, false⟩ :=
    ⟨_, .healthCheck policy result hcalm, h.of_dataObjects hdata, rfl⟩
  unfold healthCheck
  rw [wp_bind]
  refine wp_withLock _ _ _ _ _ (fun hpoisoned => ?_) (fun _ => ?_)
  · rw [show s.poisoned = true from hpoisoned] at hlock
    cases hlock
  · refine (wp_orErr _ _ _ _).mpr ⟨fun label _ => ?_, fun e _ => ?_⟩
    · rw [wp_bind, onToken, wp_mapErr, wp_onPart]
      refine (Session.wp_now hsm _ _ _).mpr ?_
      show StepsTo crates serde signer _ _ _ ⟨s.machine.tick, s.poisoned⟩
      rw [hlock]
      exact hends _ (.ok _) (Machine.Ticked.tick s.machine).dataObjects
    · show StepsTo crates serde signer _ _ _ ⟨s.machine, s.poisoned⟩
      rw [hlock]
      exact hends _ (.err _) rfl

theorem serve_signTransaction (hcounters : serde.CounterRoundTrip) (hkeys : signer.backend.KeysOnly hsm)
    {policy : MinimalHsmPolicy} (h : s.machine.Filed serde signer.label policy) (hlock : s.poisoned = false)
    (psbt : Psbt K) :
    StepsTo crates serde signer ⟨policy, false⟩ (.signTransaction psbt)
      (s.serve signer crates elements hsm serde slot (.signTransaction psbt)).1
      (s.serve signer crates elements hsm serde slot (.signTransaction psbt)).2 := by
  apply SharedState.runOn_of_wp (P := fun result psbt' s' =>
    StepsTo crates serde signer ⟨policy, false⟩ (.signTransaction psbt) (.signTransaction result psbt') s')
  have hpassed (hcheck : policy.checkAgainstPsbt crates psbt signer.network = .ok ())
      (result : Except (Stop BdkSignerError) Unit) (hcalm : Calm result) {t : SignState K (Psbt K)}
      (ht : t.machine.Filed serde signer.label policy ∧ t.poisoned = false) :
      StepsTo crates serde signer ⟨policy, false⟩ (.signTransaction psbt) (.signTransaction result t.transaction)
        ⟨t.machine, t.poisoned⟩ :=
    ⟨_, .passed policy psbt t.transaction result hcheck hcalm, ht⟩
  refine wp_withLock _ _ _ _ _ (fun hpoisoned => ?_) (fun _ => ?_)
  · rw [show s.poisoned = true from hpoisoned] at hlock
    cases hlock
  · rw [wp_bind]
    refine wp_mono (wp_signInputs_filed crates hfree hkeys h hlock) (fun result t ht => ?_) (fun e t ht => ?_)
    · refine wp_mono (wp_recordIfSigned_filed crates hfree hcounters ht.2.1 ht.2.2 _ _ _)
        (fun _ _ ht' => hpassed ht.1 _ (.ok ()) ht') (fun e t' ht' => ?_)
      obtain ⟨⟨a, rfl⟩, hkept⟩ := ht'
      exact hpassed ht.1 _ (.err a) hkept
    · obtain ⟨hkept, hstopped | hstopped⟩ := ht
      · obtain ⟨hcheck, a, rfl⟩ := hstopped
        exact hpassed hcheck _ (.err a) hkept
      · obtain ⟨stop, hcheck, rfl, htx⟩ := hstopped
        have hsame : t.transaction = psbt := htx
        cases stop with
        | err e =>
            show StepsTo crates serde signer _ _ (.signTransaction _ t.transaction) _
            rw [hsame]
            exact ⟨_, .denied policy psbt e hcheck, hkept⟩
        | panic message =>
            show StepsTo crates serde signer _ _ (.signTransaction _ t.transaction) _
            rw [hsame]
            exact ⟨_, .overflowed policy psbt message hcheck, hkept.1, rfl⟩

theorem serve_signPset (hcounters : serde.CounterRoundTrip) (hkeys : signer.backend.KeysOnly hsm)
    {policy : MinimalHsmPolicy} (h : s.machine.Filed serde signer.label policy) (hlock : s.poisoned = false)
    (pset : Pset K) :
    StepsTo crates serde signer ⟨policy, false⟩ (.signPset pset)
      (s.serve signer crates elements hsm serde slot (.signPset pset)).1
      (s.serve signer crates elements hsm serde slot (.signPset pset)).2 := by
  apply SharedState.runOn_of_wp (P := fun result pset' s' =>
    StepsTo crates serde signer ⟨policy, false⟩ (.signPset pset) (.signPset result pset') s')
  have hends (result : Except (Stop PsetError) Nat) (hcalm : Calm result) {t : SignState K (Pset K)}
      (ht : t.machine.Filed serde signer.label policy ∧ t.poisoned = false) :
      StepsTo crates serde signer ⟨policy, false⟩ (.signPset pset) (.signPset result t.transaction)
        ⟨t.machine, t.poisoned⟩ :=
    ⟨_, .pset policy pset t.transaction result hcalm, ht⟩
  refine wp_withLock _ _ _ _ _ (fun hpoisoned => ?_) (fun _ => ?_)
  · rw [show s.poisoned = true from hpoisoned] at hlock
    cases hlock
  · rw [wp_bind]
    refine wp_mono (wp_signPsetInputs_filed crates elements hfree hkeys h hlock) (fun result t ht => ?_)
      (fun e t ht => ?_)
    · rw [wp_bind]
      refine wp_mono (wp_recordIfSigned_filed crates hfree hcounters ht.1 ht.2 _ _ _)
        (fun _ _ ht' => hends _ (.ok _) ht') (fun e t' ht' => ?_)
      obtain ⟨⟨a, rfl⟩, hkept⟩ := ht'
      exact hends _ (.err a) hkept
    · obtain ⟨⟨a, rfl⟩, hkept⟩ := ht
      exact hends _ (.err a) hkept

/-- Every call on the signer is a step of the vault. -/
theorem serve_stepsTo (hpolicies : serde.PolicyRoundTrip) (hcounters : serde.CounterRoundTrip)
    (hkeys : signer.backend.KeysOnly hsm) (h : v.Represents serde signer.label s) (call : SignerCall K) :
    StepsTo crates serde signer v call (s.serve signer crates elements hsm serde slot call).1
      (s.serve signer crates elements hsm serde slot call).2 := by
  cases hlock : s.poisoned with
  | true => exact serve_poisoned crates elements slot h hlock call
  | false =>
      obtain ⟨policy, poisoned⟩ := v
      obtain rfl : poisoned = false := h.2.symm.trans hlock
      cases call with
      | policy =>
          obtain ⟨hreply, hafter⟩ := serve_policy crates elements slot (v := ⟨policy, false⟩) hfree h.1 hlock
          exact ⟨_, hreply ▸ .policy policy, hafter⟩
      | setPolicy new =>
          obtain ⟨hreply, hafter⟩ := serve_setPolicy crates elements slot (v := ⟨policy, false⟩) hfree hpolicies
            h.1 hlock new
          exact ⟨_, hreply ▸ .setPolicy policy new, hafter⟩
      | healthCheck => exact serve_healthCheck crates elements slot h.1 hlock
      | signTransaction psbt =>
          exact serve_signTransaction crates elements slot hfree hcounters hkeys h.1 hlock psbt
      | signPset pset => exact serve_signPset crates elements slot hfree hcounters hkeys h.1 hlock pset

/-- Run: so is every sequence of calls. -/
theorem serveAll_represents (hpolicies : serde.PolicyRoundTrip) (hcounters : serde.CounterRoundTrip)
    (hkeys : signer.backend.KeysOnly hsm) (calls : List (SignerCall K)) :
    ∀ (v : Vault) (s : SharedState K), v.Represents serde signer.label s →
      ∃ v', Vault.Run crates signer.network v calls
          (s.serveAll signer crates elements hsm serde slot calls).1 v' ∧
        v'.Represents serde signer.label (s.serveAll signer crates elements hsm serde slot calls).2 := by
  induction calls with
  | nil => exact fun v s h => ⟨v, .nil v, h⟩
  | cons call calls ih =>
      intro v s h
      obtain ⟨v₁, hstep, h₁⟩ := serve_stepsTo crates elements slot hfree hpolicies hcounters hkeys h call
      obtain ⟨v₂, hrun, h₂⟩ := ih v₁ _ h₁
      exact ⟨v₂, .cons hstep hrun, h₂⟩

end

namespace IdealVendor

theorem keysOnly : (recipe.toHsmBackend crates).KeysOnly token := by
  refine recipe.keysOnly crates token fun taproot htaproot handle label path digest m => ?_
  obtain rfl := Option.some.inj htaproot
  have htick := (Machine.Ticked.tick m).dataObjects
  rw [Steady, taprootSigner, Program.wp_run_bind, Session.wp_sign]
  refine ⟨fun e _ => ⟨⟨_, rfl⟩, htick⟩, fun _ => ?_⟩
  cases m.object? handle with
  | none => exact ⟨⟨_, rfl⟩, htick⟩
  | some object =>
      cases hkey : object.key with
      | none => simpa only [hkey] using ⟨⟨_, rfl⟩, htick⟩
      | some key =>
          simp only [hkey]
          exact htick

/-- The token has no records when the key ceremony is over. -/
theorem machine_filed : (machine [.normal 0]).Filed archive (signer [.normal 0]).label .permissive :=
  Machine.filed_of_matching_nil (by decide +kernel) (by decide +kernel)

/-- A slot with a token in it. -/
def slot : Slot where
  id := 7
  tokenLabel := .ok "ideal"
  openRwSession := .ok ()
  login _ := .ok ()
  token := 0

/-- A transaction whose outputs do not fit 64 bits. -/
def overflowing : Psbt Key := psbtOf [wshInput [.normal 0] none] [⟨0xFFFFFFFFFFFFFFFF, []⟩, ⟨1, []⟩]

/-- A limit is set, found too high, and lowered. -/
def limitCalls : List (SignerCall Key) :=
  [.setPolicy ⟨some 20, none, none⟩, .policy, .setPolicy ⟨some 10, none, none⟩]

end IdealVendor

/-! ### Results -/

/-- Any calls on a signer and its clones are replied to as a vault may reply that starts with the policy and the
mutex of the signer. -/
theorem signer_refines_vault (signer : Pkcs11Signer K D) (crates : Crates D) (elements : ElementsCrate K D X)
    (hsm : Hsm K D) (serde : Serde) (slot : Slot) (hfree : hsm.FaultFree) (hpolicies : serde.PolicyRoundTrip)
    (hcounters : serde.CounterRoundTrip) (hkeys : signer.backend.KeysOnly hsm) (v : Vault) (s : SharedState K)
    (h : v.Represents serde signer.label s) (calls : List (SignerCall K)) :
    ∃ v', Vault.Run crates signer.network v calls
        (s.serveAll signer crates elements hsm serde slot calls).1 v' ∧
      v'.Represents serde signer.label (s.serveAll signer crates elements hsm serde slot calls).2 :=
  serveAll_represents crates elements slot hfree hpolicies hcounters hkeys calls v s h

open IdealVendor in
/-- The calls that set limits, and one to sign. -/
theorem limit_calls_refine :
    ∃ v', Vault.Run crates .bitcoin ⟨.permissive, false⟩ (limitCalls ++ [.signTransaction overflowing])
        (SharedState.serveAll (signer [.normal 0]) crates elements token archive slot ⟨machine [.normal 0], false⟩
          (limitCalls ++ [.signTransaction overflowing])).1 v' ∧
      v'.Represents archive (signer [.normal 0]).label
        (SharedState.serveAll (signer [.normal 0]) crates elements token archive slot ⟨machine [.normal 0], false⟩
          (limitCalls ++ [.signTransaction overflowing])).2 :=
  signer_refines_vault (signer [.normal 0]) crates elements token archive slot (fun _ => rfl)
    archive_policyRoundTrip archive_counterRoundTrip keysOnly ⟨.permissive, false⟩ ⟨machine [.normal 0], false⟩
    ⟨machine_filed, rfl⟩ _

/-- After any calls on a signer whose mutex was free, the mutex is poisoned exactly if one of them was to sign a
transaction whose outputs do not fit 64 bits, while the policy put in force last before it had a limit. -/
theorem mutex_poisoned_iff_overflowed (signer : Pkcs11Signer K D) (crates : Crates D)
    (elements : ElementsCrate K D X) (hsm : Hsm K D) (serde : Serde) (slot : Slot) (hfree : hsm.FaultFree)
    (hpolicies : serde.PolicyRoundTrip) (hcounters : serde.CounterRoundTrip)
    (hkeys : signer.backend.KeysOnly hsm) (policy : MinimalHsmPolicy)
    (m : Machine K) (h : m.Filed serde signer.label policy) (calls : List (SignerCall K)) :
    (SharedState.serveAll signer crates elements hsm serde slot ⟨m, false⟩ calls).2.poisoned = true ↔
      ∃ before psbt after, calls = before ++ .signTransaction psbt :: after ∧
        (inForce policy before).perTransactionLimit ≠ none ∧ 2 ^ 64 ≤ psbt.outputTotal := by
  obtain ⟨v', hrun, _, hpoisoned⟩ := serveAll_represents crates elements slot hfree hpolicies hcounters hkeys calls
    ⟨policy, false⟩ ⟨m, false⟩ ⟨h, rfl⟩
  rw [hpoisoned, hrun.ends.1]
  exact or_iff_right Bool.false_ne_true

open IdealVendor in
/-- Under a limit the transaction that does not fit poisons the mutex. -/
theorem overflowing_poisons :
    (SharedState.serveAll (signer [.normal 0]) crates elements token archive slot ⟨machine [.normal 0], false⟩
      (limitCalls ++ [.signTransaction overflowing])).2.poisoned = true :=
  (mutex_poisoned_iff_overflowed (signer [.normal 0]) crates elements token archive slot (fun _ => rfl)
    archive_policyRoundTrip archive_counterRoundTrip keysOnly .permissive _ machine_filed _).mpr
    ⟨limitCalls, overflowing, [], rfl, by simp [limitCalls, inForce, SignerCall.newPolicy], by decide +kernel⟩

/-- After any calls on a signer whose mutex was free: as long as no transaction overflowed a limit, `policy`
returns what was set last; and whatever came before, a transaction is signed, or its PSBT changed, only if it
obeys what was set last. -/
theorem last_policy_rules (signer : Pkcs11Signer K D) (crates : Crates D) (elements : ElementsCrate K D X)
    (hsm : Hsm K D) (serde : Serde) (slot : Slot) (hfree : hsm.FaultFree)
    (hpolicies : serde.PolicyRoundTrip) (hcounters : serde.CounterRoundTrip)
    (hkeys : signer.backend.KeysOnly hsm) (policy : MinimalHsmPolicy)
    (m : Machine K) (h : m.Filed serde signer.label policy) (calls : List (SignerCall K)) :
    let s := (SharedState.serveAll signer crates elements hsm serde slot ⟨m, false⟩ calls).2
    (¬OverflowedAmong policy calls →
      (s.serve signer crates elements hsm serde slot .policy).1 = .policy (.ok (inForce policy calls))) ∧
    ∀ psbt psbt' result,
      (s.serve signer crates elements hsm serde slot (.signTransaction psbt)).1 = .signTransaction result psbt' →
      (psbt' ≠ psbt ∨ result = .ok ()) →
      (inForce policy calls).OnNetwork signer.network ∧ psbt.Obeys (inForce policy calls) := by
  intro s
  obtain ⟨v, hrun, hrep⟩ := serveAll_represents crates elements slot hfree hpolicies hcounters hkeys calls
    ⟨policy, false⟩ ⟨m, false⟩ ⟨h, rfl⟩
  have hserve (call : SignerCall K) := serve_stepsTo crates elements slot hfree hpolicies hcounters
    hkeys hrep call
  have hin (horder : v.poisoned = false) : v.policy = inForce policy calls := hrun.ends.2 horder
  refine ⟨fun hnone => ?_, fun psbt psbt' result hreply hsigned => ?_⟩
  · have horder : v.poisoned = false := by
      rw [← Bool.not_eq_true, hrun.ends.1]
      exact not_or.mpr ⟨Bool.false_ne_true, hnone⟩
    obtain ⟨v', hstep, _⟩ := hserve .policy
    generalize hr : (s.serve signer crates elements hsm serde slot .policy).1 = reply at hstep
    rw [← hin horder]
    cases hstep with
    | noPolicy => cases horder
    | policy => rfl
  · obtain ⟨v', hstep, _⟩ := hserve (.signTransaction psbt)
    rw [hreply] at hstep
    cases hstep with
    | noTransaction | denied | overflowed =>
        obtain hchanged | hok := hsigned
        · exact absurd rfl hchanged
        · cases hok
    | passed policy' psbt psbt' result hcheck =>
        rw [← hin rfl]
        exact (checkAgainstPsbt_eq_ok_iff crates policy' psbt signer.network).mp hcheck

open IdealVendor in
/-- The lower limit is in force. -/
theorem lower_limit_rules :
    ((SharedState.serveAll (signer [.normal 0]) crates elements token archive slot ⟨machine [.normal 0], false⟩
      limitCalls).2.serve (signer [.normal 0]) crates elements token archive slot .policy).1 =
        .policy (.ok ⟨some 10, none, none⟩) := by
  have hrules := last_policy_rules (signer [.normal 0]) crates elements token archive slot (fun _ => rfl)
    archive_policyRoundTrip archive_counterRoundTrip keysOnly .permissive _ machine_filed limitCalls
  apply hrules.1
  simp only [limitCalls, overflowedAmong_cons, reduceCtorEq, false_and, exists_false, false_or]
  intro h
  obtain ⟨before, psbt, after, hcalls, _⟩ := h
  simp at hcalls

end EmvaultPkcs11
