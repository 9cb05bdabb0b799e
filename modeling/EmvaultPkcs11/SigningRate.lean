import EmvaultPkcs11.IdealVendor
import EmvaultPkcs11.RateCounter
import EmvaultPkcs11.SigningOutcome

/-! The hourly ceiling over a run of signing calls. A call releases its signatures one by one and records
the signature rate once, after the last of them, if it gets that far. So the ceiling holds over runs whose
calls ask for at most one signature each, reach the recording if they are asked for one, and find room in
the counter when they start; a call outside this can release signatures that are counted once or not at
all, and the call the ceiling refuses has released its own already. -/

open Effect Agenda

namespace EmvaultPkcs11

variable {K D X : Type}

/-- What a signer is handed. -/
inductive Offer (K : Type) where
  | psbt (psbt : Psbt K)
  | pset (pset : Pset K)

/-- A signer between calls, with all the signatures it has written so far. -/
structure SignerState (K : Type) where
  machine : Machine K
  poisoned : Bool
  written : List (Written K)

/-- The state a call on a transaction starts in. -/
def SignerState.call {T : Type} (s : SignerState K) (transaction : T) : SignState K T :=
  ⟨s.machine, s.poisoned, transaction, s.written⟩

/-- What is left of a call when its caller has taken the transaction back. -/
def SignState.rest {T : Type} (s : SignState K T) : SignerState K := ⟨s.machine, s.poisoned, s.written⟩

/-- An agenda asks for no signature, or for one that nothing stands in the way of. -/
def OneAtMost {ε : Type} (agenda : List (Except ε (Target D))) (room : Prop) : Prop :=
  granted agenda = [] ∨ ((∃ target, granted agenda = [target]) ∧ Clean agenda ∧ room)

namespace Pkcs11Signer

variable (signer : Pkcs11Signer K D) (crates : Crates D) (elements : ElementsCrate K D X) (hsm : Hsm K D)
  (serde : Serde)

/-- One call, however it ends. -/
def serve (s : SignerState K) : Offer K → SignerState K
  | .psbt psbt => (after (signer.signTransaction crates hsm serde) (s.call psbt)).rest
  | .pset pset => (after (signer.signPset crates elements hsm serde) (s.call pset)).rest

/-- The stored counter has fewer than `max` signatures in the hour before the call. -/
def HasRoom (max : UInt32) (m : Machine K) : Prop :=
  ∃ counter, hsm.storedCounter serde signer.label m = .ok counter ∧
    (counter.prune (hsm.clock m.calls)).timestamps.length < max.toNat

/-- A call that the recording at its end keeps up with. -/
def Paced (max : UInt32) (s : SignerState K) : Offer K → Prop
  | .psbt psbt => OneAtMost (signer.agenda crates psbt) (signer.HasRoom hsm serde max s.machine)
  | .pset pset => OneAtMost (signer.psetAgenda elements pset) (signer.HasRoom hsm serde max s.machine)

/-- A call returns an error. -/
def Fails (s : SignerState K) : Offer K → Prop
  | .psbt psbt => ∃ e s', (signer.signTransaction crates hsm serde).run (s.call psbt) = .error e s'
  | .pset pset => ∃ e s', (signer.signPset crates elements hsm serde).run (s.call pset) = .error e s'

/-- Every call of a run is paced. -/
def PacedRun (max : UInt32) (s : SignerState K) (offers : List (Offer K)) : Prop :=
  ∀ before offer after, offers = before ++ offer :: after →
    signer.Paced crates elements hsm serde max (before.foldl (signer.serve crates elements hsm serde) s) offer

/-- What holds of the token and of the signatures written between calls. -/
structure WithinRate (policy : MinimalHsmPolicy) (max : UInt32) (federation : Object K) (m : Machine K)
    (written : List (Written K)) : Prop where
  federation : m.object? signer.loaded.privateKey = some federation
  policy : signer.storedPolicy hsm serde m = .ok policy
  apart : m.FiledApart (policyLabel signer.label) (sigrateLabel signer.label)
  covers : ∀ counter, hsm.storedCounter serde signer.label m = .ok counter →
    Window.Covers 3600 (hsm.clock m.calls) (written.map Written.time) counter.timestamps
  bounded : Window.Bounded 3600 max.toNat (written.map Written.time)

end Pkcs11Signer

namespace Pkcs11Signer

variable {signer : Pkcs11Signer K D} {crates : Crates D} {elements : ElementsCrate K D X} {hsm : Hsm K D}
  {serde : Serde} {max : UInt32} {s : SignerState K}

theorem pacedRun_nil : signer.PacedRun crates elements hsm serde max s [] := by
  intro before offer after hsplit
  cases before <;> cases hsplit

theorem pacedRun_cons {offer : Offer K} {offers : List (Offer K)} :
    signer.PacedRun crates elements hsm serde max s (offer :: offers) ↔
      signer.Paced crates elements hsm serde max s offer ∧
        signer.PacedRun crates elements hsm serde max (signer.serve crates elements hsm serde s offer) offers := by
  constructor
  · intro h
    refine ⟨h [] offer offers rfl, fun before offer' after hsplit => ?_⟩
    exact h (offer :: before) offer' after (by rw [hsplit]; rfl)
  · rintro ⟨hfirst, hrest⟩ before offer' after hsplit
    cases before with
    | nil =>
        obtain ⟨rfl, _⟩ := List.cons.inj hsplit
        exact hfirst
    | cons first before =>
        obtain ⟨rfl, hrest'⟩ := List.cons.inj hsplit
        exact hrest before offer' after hrest'

end Pkcs11Signer

theorem SigRateCounter.prune_length_le (counter : SigRateCounter) {now later : Nat} (h : now ≤ later) :
    (counter.prune later).timestamps.length ≤ (counter.prune now).timestamps.length := by
  simp only [SigRateCounter.prune, ← List.countP_eq_length_filter]
  refine List.countP_mono_left fun t _ ht => ?_
  simp only [decide_eq_true_eq] at ht ⊢
  exact (Nat.sub_le_sub_right h 3600).trans ht

section

variable {signer : Pkcs11Signer K D} {crates : Crates D} {elements : ElementsCrate K D X} {hsm : Hsm K D}
  {serde : Serde} {policy : MinimalHsmPolicy} {max : UInt32} {federation : Object K} {m : Machine K}
  {written : List (Written K)}

/-! ### What one call preserves -/

/-- Signing without writing keeps everything. -/
theorem Pkcs11Signer.WithinRate.keeps (hclock : Monotone hsm.clock)
    (h : signer.WithinRate hsm serde policy max federation m written) {m' : Machine K}
    (hkeeps : m.Keeps m') : signer.WithinRate hsm serde policy max federation m' written where
  federation := hkeeps.objects _ _ h.federation
  policy := by
    rw [← h.policy]
    exact hsm.stored_eq_of_dataObjects _ _ hkeeps.data _
  apart := by
    have hdata : .objectClass .data ∈ recordQuery (policyLabel signer.label) := by simp [recordQuery]
    have hmatching := Machine.matching_eq_of_dataObjects hkeeps.data hdata
    intro entry hentry hmatches
    have hmem : entry ∈ m'.matching (recordQuery (policyLabel signer.label)) :=
      List.mem_filter.mpr ⟨hentry, hmatches⟩
    rw [hmatching] at hmem
    exact h.apart entry (List.mem_of_mem_filter hmem) hmatches
  covers := fun counter hcounter => by
    rw [Hsm.storedCounter, hsm.stored_eq_of_dataObjects _ _ hkeeps.data] at hcounter
    exact (h.covers counter hcounter).mono (hclock hkeeps.calls)
  bounded := h.bounded

/-- One signature, written while there was room and recorded afterwards. -/
theorem Pkcs11Signer.WithinRate.record (hclock : Monotone hsm.clock)
    (h : signer.WithinRate hsm serde policy max federation m written)
    (hfederation : .objectClass .data ∉ federation.attributes) {counter : SigRateCounter}
    (hstored : hsm.storedCounter serde signer.label m = .ok counter)
    (hroom : (counter.prune (hsm.clock m.calls)).timestamps.length < max.toNat)
    {m₁ m₂ : Machine K} (hkeeps : m.Keeps m₁) {w : Written K} {c₁ c₂ : Nat} (hfrom : m.calls ≤ c₁)
    (hto : c₁ ≤ m₁.calls) (htime : w.time = hsm.clock c₁) (hfrom₂ : m₁.calls ≤ c₂) (hto₂ : c₂ ≤ m₂.calls)
    {bytes : Bytes} (hbytes : serde.counterFromSlice bytes =
      .ok ((counter.prune (hsm.clock c₂)).record (hsm.clock c₂)))
    (hreplaces : Machine.Replaces (sigrateLabel signer.label) bytes m₁ m₂) :
    signer.WithinRate hsm serde policy max federation m₂ (written ++ [w]) := by
  have hkept := h.keeps hclock hkeeps
  refine ⟨hreplaces.object?_of_some hkept.federation hfederation, ?_,
    hreplaces.filedApart (policyLabel_ne_sigrateLabel _ _) hkept.apart, fun counter' hcounter' => ?_, ?_⟩
  · rw [← hkept.policy]
    exact hreplaces.stored_other hsm (policyLabel_ne_sigrateLabel _ _) hkept.apart _ _
  · rw [Hsm.storedCounter, hreplaces.stored_self hsm hbytes] at hcounter'
    obtain rfl := Except.ok.inj hcounter'
    rw [List.map_append, List.map_singleton]
    have hcovers := (h.covers counter hstored).mono (hclock (hfrom.trans (hto.trans hfrom₂)))
    refine (hcovers.prune.record ?_).mono (hclock hto₂)
    rw [htime]
    exact hclock (hto.trans hfrom₂)
  · rw [List.map_append, List.map_singleton]
    refine h.bounded.record (h.covers counter hstored) ?_ ?_
    · rw [List.countP_eq_length_filter]
      exact hroom
    · rw [htime]
      exact hclock hfrom

/-- Stopping inside an agenda that asks for one signature at most is stopping before it. -/
theorem OneAtMost.stopped {ε : Type} {agenda : List (Except ε (Target D))} {room : Prop}
    (h : OneAtMost agenda room) {refused : Target D → Prop} {done : List (Target D)}
    (hstops : StopsAt refused agenda done) : done = [] := by
  rcases h with hnone | ⟨⟨target, hone⟩, hclean, _⟩
  · exact List.prefix_nil.mp (hnone ▸ hstops.prefix_granted)
  · rcases hstops with ⟨t, hstart, _⟩ | ⟨_, hunclean⟩
    · rw [hone] at hstart
      have hlength := hstart.length_le
      simp only [List.length_append, List.length_singleton] at hlength
      exact List.length_eq_zero_iff.mp (by omega)
    · exact absurd hclean hunclean

variable {T ε ε' : Type} {signed : Target D → Signature K → Prop} {insert : T → Nat → Insertion K → T}
  {s s₁ : SignState K T}

theorem Wrote.written_nil (h : Wrote crates hsm signed insert s [] s₁) : s₁.written = s.written := by
  obtain ⟨ws, hadvance, hanswers⟩ := h
  rw [hadvance.written, List.forall₂_nil_left_iff.mp hanswers, List.append_nil]

/-- A paced call that is turned away or stops inside its agenda writes nothing. -/
theorem Pkcs11Signer.WithinRate.stopped (hclock : Monotone hsm.clock)
    (h : signer.WithinRate hsm serde policy max federation s.machine s.written)
    {contract : SigningContract hsm signer} (hidle : ∀ m, contract.idle m → s.machine.Keeps m)
    {agenda : List (Except ε' (Target D))} {away admitted room : Prop} {e : Stop ε}
    (hpaced : OneAtMost agenda room)
    (hend : (away ∧ Wrote crates hsm contract.signed insert s [] s₁ ∧ contract.idle s₁.machine) ∨
      (admitted ∧ contract.AfterStop crates insert s [] agenda e s₁)) :
    signer.WithinRate hsm serde policy max federation s₁.machine s₁.written ∧ s₁.written = s.written := by
  rcases hend with ⟨_, hwrote, hkept⟩ | ⟨_, more, hstops, hwrote, hkept, _⟩
  · rw [hwrote.written_nil]
    exact ⟨h.keeps hclock (hidle _ hkept), rfl⟩
  · rw [hpaced.stopped hstops] at hwrote
    rw [Wrote.written_nil hwrote]
    exact ⟨h.keeps hclock (hidle _ hkept), rfl⟩

/-- The end of a paced call: its signature is recorded, and recording it does not fail. -/
theorem wp_recordIfSigned_paced (hfree : hsm.FaultFree) (hclock : Monotone hsm.clock)
    (hserde : serde.CounterRoundTrip) (hfederation : .objectClass .data ∉ federation.attributes)
    (hmax : policy.maxSignaturesPerHour = some max)
    (h : signer.WithinRate hsm serde policy max federation s.machine s.written)
    {agenda : List (Except ε' (Target D))}
    (hpaced : OneAtMost agenda (signer.HasRoom hsm serde max s.machine))
    (hwrote : Wrote crates hsm signed insert s (granted agenda) s₁) (hkeeps : s.machine.Keeps s₁.machine)
    (fail : String → ε) {flag : Bool} (hflag : flag = true ↔ granted agenda ≠ []) :
    wp (signer.recordIfSigned crates hsm serde fail policy flag : SignM K T ε Unit)
      (fun _ s' => signer.WithinRate hsm serde policy max federation s'.machine s'.written)
      (fun _ _ => False) s₁ := by
  unfold Pkcs11Signer.recordIfSigned
  rcases hpaced with hnone | ⟨⟨target, hone⟩, _, counter, hstored, hroom⟩
  · rw [if_neg (by simp [hflag, hnone])]
    rw [hnone] at hwrote
    rw [wp_pure, hwrote.written_nil]
    exact h.keeps hclock hkeeps
  · rw [if_pos (by simp [hflag, hone]), onToken, wp_mapErr, wp_onPart]
    obtain ⟨ws, hadvance, hanswers⟩ := hwrote
    rw [hone] at hanswers
    cases hanswers with
    | cons _ hrest =>
        cases hrest
        rename_i w _
        obtain ⟨c₁, hfrom, hto, htime⟩ := hadvance.times w List.mem_cons_self
        have hstored₁ : hsm.storedCounter serde signer.label s₁.machine = .ok counter := by
          rw [Hsm.storedCounter, hsm.stored_eq_of_dataObjects _ _ hkeeps.data]
          exact hstored
        simp only [checkAndRecordSigrate, hmax, Program.wp_run_bind]
        refine wp_mono (wp_recordSigrate hsm signer.label max hfree hserde hstored₁ fun c hc => ?_)
          (fun now m₂ h₂ => ?_) (fun _ _ hfalse => hfalse)
        · exact (counter.prune_length_le (hclock (hkeeps.calls.trans hc))).trans_lt hroom
        · obtain ⟨c₂, bytes, hfrom₂, hto₂, rfl, hbytes, hreplaces⟩ := h₂
          rw [Program.pure_eq, Program.wp_run_done, hadvance.written]
          exact h.record hclock hfederation hstored hroom hkeeps hfrom hto htime hfrom₂ hto₂ hbytes hreplaces

/-! ### Calls and runs -/

variable {functions : VendorFunctions K D}

/-- A signing call that asks for one signature at most, and only where there is room for it. -/
theorem wp_lockedCall_paced (hfree : hsm.FaultFree) (hclock : Monotone hsm.clock)
    (hserde : serde.CounterRoundTrip) (hfederation : .objectClass .data ∉ federation.attributes)
    (hmax : policy.maxSignaturesPerHour = some max)
    (h : signer.WithinRate hsm serde policy max federation s.machine s.written) {α β : Type}
    {contract : SigningContract hsm signer} {agenda : List (Except ε' (Target D))}
    {admits : MinimalHsmPolicy → Prop} {known : β → Prop} {inputs : SignM K T ε (MinimalHsmPolicy × β)}
    (hworks : contract.WorksOff crates insert agenda admits known inputs s)
    (hidle : ∀ m, contract.idle m → s.machine.Keeps m) (hpolicy : ∀ stored, admits stored → stored = policy)
    (hpaced : OneAtMost agenda (signer.HasRoom hsm serde max s.machine)) {any : β → Bool}
    (hany : ∀ b, known b → (any b = true ↔ granted agenda ≠ [])) (refusal : ε) (fail : String → ε)
    (result : β → α) :
    wp (signer.lockedCall crates hsm serde refusal fail inputs any result)
      (fun _ s' => signer.WithinRate hsm serde policy max federation s'.machine s'.written)
      (fun _ s' => signer.WithinRate hsm serde policy max federation s'.machine s'.written ∧
        s'.written = s.written) s := by
  refine wp_withLock _ _ _ _ s (fun _ => ⟨h, rfl⟩) (fun _ => ?_)
  rw [wp_bind]
  refine wp_mono hworks (fun result s₁ h₁ => ?_) (fun e s' h' => ?_)
  · obtain ⟨hadmits, _, hwrote, hidle₁, hknown⟩ := h₁
    rw [hpolicy _ hadmits, wp_bind]
    exact wp_mono (wp_recordIfSigned_paced hfree hclock hserde hfederation hmax h hpaced hwrote (hidle _ hidle₁)
      _ (hany _ hknown)) (fun _ _ hdone => hdone) (fun _ _ hfalse => hfalse.elim)
  · have hdone := h.stopped hclock hidle hpaced h'
    cases e <;> exact hdone

theorem wp_signTransaction_paced (hfree : hsm.FaultFree) (hclock : Monotone hsm.clock)
    (hserde : serde.CounterRoundTrip) (hcomputes : signer.backend.Computes hsm functions)
    (hfederation : .objectClass .data ∉ federation.attributes)
    (hmax : policy.maxSignaturesPerHour = some max) (s : SignState K (Psbt K))
    (h : signer.WithinRate hsm serde policy max federation s.machine s.written)
    (hpaced : OneAtMost (signer.agenda crates s.transaction) (signer.HasRoom hsm serde max s.machine)) :
    wp (signer.signTransaction crates hsm serde)
      (fun _ s' => signer.WithinRate hsm serde policy max federation s'.machine s'.written)
      (fun _ s' => signer.WithinRate hsm serde policy max federation s'.machine s'.written ∧
        s'.written = s.written) s := by
  let contract := hcomputes.contract h.federation
  rw [signer.signTransaction_eq]
  apply wp_lockedCall_paced hfree hclock hserde hfederation hmax h
    (contract.worksOff_signInputs crates serde s (.refl s.machine)) (fun _ hkeeps => hkeeps)
  · exact fun stored hadmits => Except.ok.inj (hadmits.1.symm.trans h.policy)
  · exact hpaced
  · exact fun _ hflag => hflag

theorem wp_signPset_paced (hfree : hsm.FaultFree) (hclock : Monotone hsm.clock)
    (hserde : serde.CounterRoundTrip) (hcomputes : signer.backend.Computes hsm functions)
    (hfederation : .objectClass .data ∉ federation.attributes)
    (hmax : policy.maxSignaturesPerHour = some max) (s : SignState K (Pset K))
    (h : signer.WithinRate hsm serde policy max federation s.machine s.written)
    (hpaced : OneAtMost (signer.psetAgenda elements s.transaction)
      (signer.HasRoom hsm serde max s.machine)) :
    wp (signer.signPset crates elements hsm serde)
      (fun _ s' => signer.WithinRate hsm serde policy max federation s'.machine s'.written)
      (fun _ s' => signer.WithinRate hsm serde policy max federation s'.machine s'.written ∧
        s'.written = s.written) s := by
  let contract := hcomputes.contract h.federation
  rw [signer.signPset_eq]
  apply wp_lockedCall_paced hfree hclock hserde hfederation hmax h
    (contract.worksOff_signPsetInputs crates serde elements s (.refl s.machine)) (fun _ hkeeps => hkeeps)
  · exact fun stored hstored => Except.ok.inj (hstored.symm.trans h.policy)
  · exact hpaced
  · intro count hcount
    rw [decide_eq_true_eq, hcount, List.length_pos_iff]

/-- Step: a paced call keeps the rate. -/
theorem withinRate_serve (hfree : hsm.FaultFree) (hclock : Monotone hsm.clock)
    (hserde : serde.CounterRoundTrip) (hcomputes : signer.backend.Computes hsm functions)
    (hfederation : .objectClass .data ∉ federation.attributes)
    (hmax : policy.maxSignaturesPerHour = some max) {s : SignerState K}
    (h : signer.WithinRate hsm serde policy max federation s.machine s.written) {offer : Offer K}
    (hpaced : signer.Paced crates elements hsm serde max s offer) :
    signer.WithinRate hsm serde policy max federation
      (signer.serve crates elements hsm serde s offer).machine
      (signer.serve crates elements hsm serde s offer).written := by
  cases offer with
  | psbt psbt =>
      exact after_of_wp (P := fun s' =>
          signer.WithinRate hsm serde policy max federation s'.machine s'.written)
        (wp_signTransaction_paced hfree hclock hserde hcomputes hfederation hmax (s.call psbt) h hpaced)
        (fun _ _ h' => h') (fun _ _ h' => h'.1)
  | pset pset =>
      exact after_of_wp (P := fun s' =>
          signer.WithinRate hsm serde policy max federation s'.machine s'.written)
        (wp_signPset_paced hfree hclock hserde hcomputes hfederation hmax (s.call pset) h hpaced)
        (fun _ _ h' => h') (fun _ _ h' => h'.1)

/-- Run: so does a run of them. -/
theorem withinRate_run (hfree : hsm.FaultFree) (hclock : Monotone hsm.clock)
    (hserde : serde.CounterRoundTrip) (hcomputes : signer.backend.Computes hsm functions)
    (hfederation : .objectClass .data ∉ federation.attributes)
    (hmax : policy.maxSignaturesPerHour = some max) (offers : List (Offer K)) :
    ∀ s : SignerState K, signer.WithinRate hsm serde policy max federation s.machine s.written →
      signer.PacedRun crates elements hsm serde max s offers →
      signer.WithinRate hsm serde policy max federation
        (offers.foldl (signer.serve crates elements hsm serde) s).machine
        (offers.foldl (signer.serve crates elements hsm serde) s).written := by
  induction offers with
  | nil => exact fun s h _ => h
  | cons offer offers ih =>
      intro s h hpaced
      obtain ⟨hfirst, hrest⟩ := Pkcs11Signer.pacedRun_cons.mp hpaced
      exact ih _ (withinRate_serve hfree hclock hserde hcomputes hfederation hmax h hfirst) hrest

/-- A paced call that returns an error has written nothing. -/
theorem written_serve_of_fails (hfree : hsm.FaultFree) (hclock : Monotone hsm.clock)
    (hserde : serde.CounterRoundTrip) (hcomputes : signer.backend.Computes hsm functions)
    (hfederation : .objectClass .data ∉ federation.attributes)
    (hmax : policy.maxSignaturesPerHour = some max) {s : SignerState K}
    (h : signer.WithinRate hsm serde policy max federation s.machine s.written) {offer : Offer K}
    (hpaced : signer.Paced crates elements hsm serde max s offer)
    (hfails : signer.Fails crates elements hsm serde s offer) :
    (signer.serve crates elements hsm serde s offer).written = s.written := by
  cases offer with
  | psbt psbt =>
      obtain ⟨e, s', hrun⟩ := hfails
      simp only [Pkcs11Signer.serve, after, hrun]
      exact (wp_of_run_error (wp_signTransaction_paced hfree hclock hserde hcomputes hfederation hmax
        (s.call psbt) h hpaced) hrun).2
  | pset pset =>
      obtain ⟨e, s', hrun⟩ := hfails
      simp only [Pkcs11Signer.serve, after, hrun]
      exact (wp_of_run_error (wp_signPset_paced hfree hclock hserde hcomputes hfederation hmax
        (s.call pset) h hpaced) hrun).2

/-- Over a run of paced calls, from any token on which the federation key is present and a policy with a
ceiling is stored, no hour holds more signatures than the ceiling, and no call that returns an error has
written any. -/
theorem ceiling_of_pacedRun (hfree : hsm.FaultFree) (hclock : Monotone hsm.clock)
    (hserde : serde.CounterRoundTrip) (hcomputes : signer.backend.Computes hsm functions)
    (hmax : policy.maxSignaturesPerHour = some max) (m : Machine K) (poisoned : Bool)
    (hheld : m.object? signer.loaded.privateKey = some federation)
    (hfederation : .objectClass .data ∉ federation.attributes)
    (hpolicy : signer.storedPolicy hsm serde m = .ok policy)
    (hapart : m.FiledApart (policyLabel signer.label) (sigrateLabel signer.label))
    (offers : List (Offer K))
    (hpaced : signer.PacedRun crates elements hsm serde max ⟨m, poisoned, []⟩ offers) :
    (∀ T, ((offers.foldl (signer.serve crates elements hsm serde) ⟨m, poisoned, []⟩).written.filter
      fun w => T - 3600 ≤ w.time ∧ w.time ≤ T).length ≤ max.toNat) ∧
    ∀ before offer after, offers = before ++ offer :: after →
      signer.Fails crates elements hsm serde
        (before.foldl (signer.serve crates elements hsm serde) ⟨m, poisoned, []⟩) offer →
      ((before ++ [offer]).foldl (signer.serve crates elements hsm serde) ⟨m, poisoned, []⟩).written =
        (before.foldl (signer.serve crates elements hsm serde) ⟨m, poisoned, []⟩).written := by
  have hstart : signer.WithinRate hsm serde policy max federation m [] :=
    ⟨hheld, hpolicy, hapart, fun _ _ => Window.covers_nil _ _ _, Window.bounded_nil _ _⟩
  refine ⟨fun T => ?_, fun before offer after hsplit hfails => ?_⟩
  · have hbounded := (withinRate_run hfree hclock hserde hcomputes hfederation hmax offers
      ⟨m, poisoned, []⟩ hstart hpaced).bounded T
    rw [List.countP_map, List.countP_eq_length_filter, Function.comp_def] at hbounded
    exact hbounded
  · have hbefore := withinRate_run hfree hclock hserde hcomputes hfederation hmax before
      ⟨m, poisoned, []⟩ hstart fun before' offer' after' hsplit' =>
        hpaced before' offer' (after' ++ offer :: after) (by rw [hsplit, hsplit']; simp)
    rw [List.foldl_append, List.foldl_cons, List.foldl_nil]
    exact written_serve_of_fails hfree hclock hserde hcomputes hfederation hmax hbefore
      (hpaced before offer after hsplit) hfails

end

namespace IdealVendor

/-- A PSBT for one signature, one whose input has no output to spend, and one for another signature. -/
def threeOffers : List (Offer Key) :=
  [.psbt (psbtOf [wshInput [] none] []), .psbt (psbtOf [{ wshInput [] none with witnessUtxo := none }] []),
    .psbt (psbtOf [wshInput [] none] [])]

/-- A signer under a ceiling of two, before its first call. -/
def underCeiling : SignerState Key := ⟨withPolicy ⟨none, some 2, none⟩ (machine []), false, []⟩

theorem threeOffers_paced : (signer []).PacedRun crates elements token serde 2 underCeiling threeOffers := by
  apply Pkcs11Signer.pacedRun_cons.mpr
  refine ⟨?_, Pkcs11Signer.pacedRun_cons.mpr ⟨?_, Pkcs11Signer.pacedRun_cons.mpr ⟨?_, Pkcs11Signer.pacedRun_nil⟩⟩⟩
  · exact Or.inr ⟨⟨_, rfl⟩, (clean_ok_cons _ _).mpr clean_nil, ⟨[]⟩, rfl, by decide⟩
  · exact Or.inl rfl
  · exact Or.inr ⟨⟨_, rfl⟩, (clean_ok_cons _ _).mpr clean_nil, ⟨[10]⟩, rfl, by decide +kernel⟩

end IdealVendor


open IdealVendor in
/-- Three calls under a ceiling of two: the first and the third write a signature each, and the second is turned
down without one. -/
theorem three_calls_within_ceiling :
    ((threeOffers.foldl ((signer []).serve crates elements token serde) underCeiling).written.filter
      fun w => 3600 - 3600 ≤ w.time ∧ w.time ≤ 3600).length ≤ 2 ∧
    ((threeOffers.take 2).foldl ((signer []).serve crates elements token serde) underCeiling).written =
      ((threeOffers.take 1).foldl ((signer []).serve crates elements token serde) underCeiling).written := by
  have hvendor := recipe.toHsmBackend_computes crates token fun taproot h =>
    Option.some.inj h ▸ taprootSigner_computes [7] (fun _ => none) fun n => n
  have hheld : underCeiling.machine.object? (signer []).loaded.privateKey =
      some (AttributeDerivation.masterObject (privLabel "a") master) := rfl
  have hpolicy : (signer []).storedPolicy token serde underCeiling.machine = .ok ⟨none, some 2, none⟩ := rfl
  have hceiling := ceiling_of_pacedRun (fun _ => rfl) (fun _ _ h => h) counterRoundTrip hvendor rfl _ false hheld
    (by decide) hpolicy (by unfold Machine.FiledApart; decide +kernel) threeOffers threeOffers_paced
  have hrefused : (signer []).Fails crates elements token serde
      ((threeOffers.take 1).foldl ((signer []).serve crates elements token serde) underCeiling)
      (.psbt (psbtOf [{ wshInput [] none with witnessUtxo := none }] [])) := ⟨_, _, rfl⟩
  exact ⟨hceiling.1 3600, hceiling.2 _ _ [.psbt (psbtOf [wshInput [] none] [])] rfl hrefused⟩

open IdealVendor in
/-- Under a ceiling of one, a PSBT with two inputs gets two signatures within an hour and uses up one
entry; the next call is refused by the ceiling, with a third signature written. -/
theorem two_inputs_exceed_ceiling :
    (signer []).storedPolicy token serde (withPolicy ⟨none, some 1, none⟩ (machine [])) =
      .ok ⟨none, some 1, none⟩ ∧
    (((signer []).serve crates elements token serde
        ⟨withPolicy ⟨none, some 1, none⟩ (machine []), false, []⟩
        (.psbt (psbtOf [wshInput [] none, wshInput [] none] []))).written.filter
      fun w => 3600 - 3600 ≤ w.time ∧ w.time ≤ 3600).length = 2 ∧
    (match ((signer []).signTransaction crates token serde).run
        (((signer []).serve crates elements token serde
          ⟨withPolicy ⟨none, some 1, none⟩ (machine []), false, []⟩
          (.psbt (psbtOf [wshInput [] none, wshInput [] none] []))).call (psbtOf [wshInput [] none] [])) with
      | .ok _ _ => none
      | .error e s => some (e, s.written.length)) =
      some (.err (.external ("HSM policy violation: " ++ sigrateCeiling 1 1)), 3) :=
  ⟨rfl, by decide +kernel, by decide +kernel⟩

end EmvaultPkcs11
