import EmvaultPkcs11.IdealVendor
import EmvaultPkcs11.ParallelSigning

/-! Ceremonies, loads and signing calls in sessions of their own, side by side on one token: how each ends, and with
which key. -/

open Effect Program

namespace EmvaultPkcs11

variable {K D X ι : Type}

/-- What a session is asked for. -/
inductive Job (K D : Type) where
  | ceremony (label : String) (path : DerivationPath) (network : Network) (seed : Bytes)
  | load (label : String) (path : DerivationPath) (network : Network)
  | signTransaction (signer : Pkcs11Signer K D) (psbt : Psbt K)
  | signPset (signer : Pkcs11Signer K D) (pset : Pset K)

/-- What its caller is left with. -/
inductive JobResult (K D : Type) where
  | made (result : Except (Stop Pkcs11Error) (Pkcs11Signer K D))
  | loaded (result : Except (Stop Pkcs11Error) (Pkcs11Signer K D))
  | psbt (result : Except (Stop BdkSignerError) Unit) (psbt : Psbt K)
  | pset (result : Except (Stop PsetError) Nat) (pset : Pset K)

/-- The same result, up to the handle of a new key: behind it is the same object. -/
def JobResult.Agrees (own device : Machine K) : JobResult K D → JobResult K D → Prop
  | .made result, .made result' => SameEnd (fun signer signer' =>
      signer' = { signer with loaded := signer'.loaded } ∧
        device.object? signer'.loaded.privateKey = own.object? signer.loaded.privateKey) result result'
  | .loaded result, .loaded result' => SameEnd (fun signer signer' =>
      signer' = signer ∧ device.object? signer.loaded.privateKey = own.object? signer.loaded.privateKey) result result'
  | result, result' => result' = result

namespace Job

section

variable (recipe : AttributeDerivation K D) (crates : Crates D) (elements : ElementsCrate K D X) (serde : Serde)

/-- The calls a session makes for it. -/
def program : Job K D → TokenProgram K D Empty (JobResult K D)
  | .ceremony label path network seed => do
      let result ← (Pkcs11Signer.deriveFromSeed label path network (recipe.toHsmBackend crates) seed).outcome
      pure (.made result)
  | .load label path network => do
      let result ← (Pkcs11Signer.load label path network (recipe.toHsmBackend crates)).outcome
      pure (.loaded result)
  | .signTransaction signer psbt => do
      let (result, psbt) ← CallsOf.signTransaction signer crates serde psbt
      pure (.psbt result psbt)
  | .signPset signer pset => do
      let (result, pset) ← CallsOf.signPset signer crates elements serde pset
      pure (.pset result pset)

variable (hsm : Hsm K D)

/-- What the session does with the token to itself. -/
def alone (m : Machine K) : Job K D → JobResult K D × Machine K
  | .ceremony label path network seed =>
      let x := Program.run hsm.exec
        (Pkcs11Signer.deriveFromSeed label path network (recipe.toHsmBackend crates) seed)
      (.made (ending (x.run m)), after x m)
  | .load label path network =>
      let x := Program.run hsm.exec (Pkcs11Signer.load label path network (recipe.toHsmBackend crates))
      (.loaded (ending (x.run m)), after x m)
  | .signTransaction signer psbt =>
      let x := signer.signTransaction crates hsm serde
      let s : SignState K (Psbt K) := ⟨m, false, psbt, []⟩
      (.psbt (ending (x.run s)) (after x s).transaction, (after x s).machine)
  | .signPset signer pset =>
      let x := signer.signPset crates elements hsm serde
      let s : SignState K (Pset K) := ⟨m, false, pset, []⟩
      (.pset (ending (x.run s)) (after x s).transaction, (after x s).machine)

/-- A signing job's key was on the token at the start, and no ceiling is stored for it. -/
def Ready (start : Machine K) : Job K D → Prop
  | .signTransaction signer _ => signer.Ready hsm crates recipe start.nextHandle ∧ signer.Unlimited hsm serde start
  | .signPset signer _ => signer.Ready hsm crates recipe start.nextHandle ∧ signer.Unlimited hsm serde start
  | _ => True

/-! ### The program is what the session does -/

theorem alone_signing {T ε α : Type} {calls : SignCalls K D T ε α} (refusal : ε) {body : SignM K T ε α}
    (hcalls : RealizesSigning hsm calls body) (m : Machine K) (t : T) :
    (Program.run hsm.exec (calls t)).run m =
      .ok (ending ((withLock refusal body).run ⟨m, false, t, []⟩),
          (after (withLock refusal body) ⟨m, false, t, []⟩).transaction)
        (after (withLock refusal body) ⟨m, false, t, []⟩).machine := by
  obtain ⟨r, s', hrun, hbody, _⟩ := hcalls ⟨m, false, t, []⟩
  have hlock : ∃ s'', (withLock refusal body).run ⟨m, false, t, []⟩ = toResult r s'' ∧
      s''.transaction = s'.transaction ∧ s''.machine = s'.machine := by
    simp only [EStateM.run, withLock] at hbody ⊢
    rw [hbody]
    cases r with
    | ok a => exact ⟨s', rfl, rfl, rfl⟩
    | error e =>
        cases e with
        | err e => exact ⟨s', rfl, rfl, rfl⟩
        | panic message => exact ⟨{ s' with poisoned := true }, rfl, rfl, rfl⟩
  obtain ⟨s'', hlocked, htransaction, hmachine⟩ := hlock
  rw [after_toResult hlocked, hlocked, ending_toResult, htransaction, hmachine]
  exact hrun

theorem run_program (job : Job K D) (m : Machine K) :
    (Program.run hsm.exec (job.program recipe crates elements serde)).run m =
      .ok (job.alone recipe crates elements serde hsm m).1 (job.alone recipe crates elements serde hsm m).2 := by
  cases job with
  | ceremony label path network seed =>
      rw [program, Program.run_bind, EStateM.run_bind, Program.run_outcome]
      rfl
  | load label path network =>
      rw [program, Program.run_bind, EStateM.run_bind, Program.run_outcome]
      rfl
  | signTransaction signer psbt =>
      rw [program, Program.run_bind, EStateM.run_bind,
        alone_signing hsm (.external "Pkcs11Signer mutex poisoned") realizes_signTransaction]
      rfl
  | signPset signer pset =>
      rw [program, Program.run_bind, EStateM.run_bind,
        alone_signing hsm (.signerBackend "Pkcs11Signer mutex poisoned") realizes_signPset]
      rfl

end

end Job

/-! ### Among other sessions -/

/-- The same result of both runs. -/
def JobResult.Same (base : ObjectHandle) (ρ : Pairing) : JobResult K D → JobResult K D → Prop
  | .made result, .made result' => SameEnd (fun signer signer' =>
      Pkcs11Signer.Same ρ signer signer' ∧ base ≤ signer.loaded.privateKey) result result'
  | .loaded result, .loaded result' => SameEnd (fun signer signer' =>
      signer' = signer ∧ ρ signer.loaded.privateKey signer.loaded.privateKey) result result'
  | result, result' => result' = result

theorem JobResult.Same.agrees {start own device : Machine K} {ρ : Pairing} {result result' : JobResult K D}
    (h : result.Same start.nextHandle ρ result') (hsees : Sees start ρ own device) :
    result.Agrees own device result' := by
  cases result with
  | made result =>
      cases result' with
      | made result' => exact SameEnd.imp (fun signer signer' h => ⟨h.1.1, (hsees.live h.1.2).2.2⟩) h
      | _ => cases h
  | loaded result =>
      cases result' with
      | loaded result' => exact SameEnd.imp (fun signer signer' h => ⟨h.1, (hsees.live h.2).2.2⟩) h
      | _ => cases h
  | psbt result psbt => exact h
  | pset result pset => exact h

/-- The key of a ceremony is new. -/
theorem JobResult.Same.made {base : ObjectHandle} {ρ : Pairing} {result : JobResult K D} {signer : Pkcs11Signer K D}
    (h : result.Same base ρ (.made (.ok signer))) :
    ∃ handle, ρ handle signer.loaded.privateKey ∧ base ≤ handle := by
  cases result with
  | made result =>
      cases result with
      | ok own => exact ⟨own.loaded.privateKey, h.1.2, h.2⟩
      | error e => exact h.elim
  | _ => cases h

section

variable {recipe : AttributeDerivation K D} {crates : Crates D} {elements : ElementsCrate K D X} {serde : Serde}
  {hsm : Hsm K D} {start : Machine K}

theorem follows_job (elements : ElementsCrate K D X) {job : Job K D}
    (hready : job.Ready recipe crates serde hsm start) :
    Follows hsm start.nextHandle (JobResult.Same start.nextHandle) (.start start.nextHandle)
      (job.program recipe crates elements serde) start (job.program recipe crates elements serde) := by
  have hproper := Pairing.proper_start start.nextHandle
  cases job with
  | ceremony label path network seed =>
      exact Follows.bind hproper
        (Pkcs11Signer.follows_deriveFromSeed recipe crates hproper label path network seed).outcome
        fun ρ result result' m _ _ h => (follows_done _ _ m).mpr h
  | load label path network =>
      exact Follows.bind hproper (Pkcs11Signer.follows_load recipe crates hproper label path network).outcome
        fun ρ result result' m _ _ h => (follows_done _ _ m).mpr h
  | signTransaction signer psbt =>
      refine Follows.bind hproper (walks_signTransaction hready.1 hready.2 hproper psbt) fun ρ r r' m _ _ h =>
        (follows_done _ _ m).mpr ?_
      show JobResult.psbt r'.1 r'.2 = .psbt r.1 r.2
      rw [h.1, h.2.eq]
  | signPset signer pset =>
      refine Follows.bind hproper (walks_signPset hready.1 hready.2 hproper pset) fun ρ r r' m _ _ h =>
        (follows_done _ _ m).mpr ?_
      show JobResult.pset r'.1 r'.2 = .pset r.1 r.2
      rw [h.1, h.2.eq]

theorem calls_alone (job : Job K D) (m : Machine K) :
    (job.alone recipe crates elements serde hsm m).2.calls =
      m.calls + Program.turns hsm.exec (job.program recipe crates elements serde) m := by
  have hturns (p : TokenProgram K D Empty (JobResult K D)) :
      ∀ m, (after (Program.run hsm.exec p) m).calls = m.calls + Program.turns hsm.exec p m := by
    induction p with
    | done a => exact fun m => rfl
    | stop e => exact fun m => rfl
    | call c next ih =>
        intro m
        have hrest := ih (hsm.exec c m).1 (hsm.exec c m).2
        rw [hsm.calls_exec] at hrest
        rw [Program.turns, ← Nat.add_assoc, Nat.add_right_comm, ← hrest]
        rfl
  rw [← hturns, after, Job.run_program]

variable [DecidableEq ι]

/-- Sessions side by side on a token that answers its calls, in whatever order they get their turns: each ends as it
would end if it had the token to itself, once it has had as many turns, and two ceremonies never end with the same key
handle. -/
theorem jobs_end_alone (elements : ElementsCrate K D X) {jobs : ι → Job K D} (hfree : hsm.FaultFree)
    (hready : ∀ i, (jobs i).Ready recipe crates serde hsm start) (schedule : List ι) :
    let s := Race.run hsm.exec ⟨start, fun i => (jobs i).program recipe crates elements serde⟩ schedule
    let alone := fun i => (jobs i).alone recipe crates elements serde hsm start
    (∀ i, (alone i).2.calls ≤ start.calls + schedule.count i → ∃ result, s.threads i = .done result) ∧
    (∀ i result, s.threads i = .done result → (alone i).1.Agrees (alone i).2 s.device result) ∧
    ∀ i j signer signer', i ≠ j → s.threads i = .done (.made (.ok signer)) →
      s.threads j = .done (.made (.ok signer')) → signer.loaded.privateKey ≠ signer'.loaded.privateKey := by
  intro s alone
  obtain ⟨views, hapart, hends⟩ := sessions_end_alone hfree (fun i => follows_job elements (hready i)) schedule
  have hrun (i : ι) := (jobs i).run_program recipe crates elements serde hsm start
  have hdone (i : ι) (result : JobResult K D) (h : s.threads i = .done result) :
      (alone i).1.Same start.nextHandle (views i) result ∧ Sees start (views i) (alone i).2 s.device := by
    obtain ⟨result', own, hrun', hsame, hsees⟩ := (hends i).2.1 result h
    obtain ⟨rfl, rfl⟩ := EStateM.Result.ok.inj ((hrun i).symm.trans hrun')
    exact ⟨hsame, hsees⟩
  refine ⟨fun i henough => ?_, fun i result h => (hdone i result h).1.agrees (hdone i result h).2, ?_⟩
  · have hended : (s.threads i).Ended := by
      refine (hends i).1 ?_
      have hcalls : (alone i).2.calls = start.calls +
          Program.turns hsm.exec ((jobs i).program recipe crates elements serde) start := calls_alone (jobs i) start
      omega
    cases hthread : s.threads i with
    | done result => exact ⟨result, rfl⟩
    | stop e =>
        obtain ⟨own, hrun'⟩ := (hends i).2.2 e hthread
        cases (hrun i).symm.trans hrun'
    | call c next =>
        rw [hthread] at hended
        exact hended.elim
  · intro i j signer signer' hne hi hj
    obtain ⟨handle, hpair, hnew⟩ := (hdone i _ hi).1.made
    obtain ⟨handle', hpair', hnew'⟩ := (hdone j _ hj).1.made
    have hproper := (hdone i _ hi).2.proper
    have hproper' := (hdone j _ hj).2.proper
    exact hapart i j hne hpair hpair' (hproper.new hpair hnew) (hproper'.new hpair' hnew')

end

namespace IdealVendor

/-- Two ceremonies and two signing calls. -/
def fourJobs : Fin 4 → Job Key Digest
  | 0 => .ceremony "b" [.hardened 1] .bitcoin (List.replicate 64 8)
  | 1 => .ceremony "c" [] .bitcoin (List.replicate 64 9)
  | 2 => .signTransaction (signer [.hardened 0]) (psbtOf [wshInput [.hardened 0, .normal 1] none] [])
  | 3 => .signPset (signer [.hardened 0]) ⟨[psetInput [.hardened 0, .normal 2]], [], []⟩

/-- They take turns. -/
def fourTurns : List (Fin 4) := (List.replicate 12 [0, 1, 2, 3]).flatten

def fourSessions : Race (Session Key Digest) (Stop Empty) (JobResult Key Digest) (Machine Key) (Fin 4) :=
  Race.run token.exec ⟨machine [.hardened 0], fun i => (fourJobs i).program recipe crates elements serde⟩
    fourTurns

def fourAlone (i : Fin 4) : JobResult Key Digest × Machine Key :=
  (fourJobs i).alone recipe crates elements serde token (machine [.hardened 0])

theorem signer_ready : (signer [.hardened 0]).Ready token crates recipe (machine [.hardened 0]).nextHandle where
  backend := rfl
  held := by decide +kernel
  taproot := by
    intro taproot h base ρ m handle handle' label path digest hproper hpair
    obtain rfl := Option.some.inj h
    refine Follows.bind hproper (follows_sign hpair digest) fun ρ' raw raw' m' _ _ h => ?_
    obtain rfl := h
    exact (follows_done _ _ m').mpr rfl

theorem signer_unlimited : (signer [.hardened 0]).Unlimited token serde (machine [.hardened 0]) := by
  intro policy h
  have hpermissive : (signer [.hardened 0]).storedPolicy token serde (machine [.hardened 0]) = .ok .permissive := rfl
  rw [hpermissive] at h
  rw [← Except.ok.inj h]
  rfl

/-- The handle of the key a ceremony has ended with. -/
def madeKey : TokenProgram Key Digest Empty (JobResult Key Digest) → Option ObjectHandle
  | .done (.made (.ok signer)) => some signer.loaded.privateKey
  | _ => none

theorem exists_of_madeKey {thread : TokenProgram Key Digest Empty (JobResult Key Digest)}
    (h : (madeKey thread).isSome = true) : ∃ signer, thread = .done (.made (.ok signer)) := by
  unfold madeKey at h
  split at h
  next signer => exact ⟨signer, rfl⟩
  · cases h

end IdealVendor

open IdealVendor in
/-- All four end as they would alone, and the two ceremonies with different keys. -/
theorem four_sessions_end_alone :
    (∀ i, ∃ result, fourSessions.threads i = .done result ∧
      (fourAlone i).1.Agrees (fourAlone i).2 fourSessions.device result) ∧
    ∃ first second, fourSessions.threads 0 = .done (.made (.ok first)) ∧
      fourSessions.threads 1 = .done (.made (.ok second)) ∧
      first.loaded.privateKey ≠ second.loaded.privateKey := by
  have hready (i : Fin 4) : (fourJobs i).Ready recipe crates serde token (machine [.hardened 0]) := by
    fin_cases i
    · trivial
    · trivial
    · exact ⟨signer_ready, signer_unlimited⟩
    · exact ⟨signer_ready, signer_unlimited⟩
  obtain ⟨hends, hagrees, happart⟩ := jobs_end_alone elements (fun _ => rfl) hready fourTurns
  have hturns (i : Fin 4) : (fourAlone i).2.calls ≤
      (machine [.hardened 0]).calls + fourTurns.count i := by
    fin_cases i <;> decide +kernel
  have hmade (i : Fin 4) (hi : i.val < 2) : ∃ signer, fourSessions.threads i = .done (.made (.ok signer)) := by
    apply exists_of_madeKey
    fin_cases i <;> first | decide +kernel | exact absurd hi (by decide)
  unfold fourSessions fourAlone at *
  refine ⟨fun i => ?_, ?_⟩
  · obtain ⟨result, hresult⟩ := hends i (hturns i)
    exact ⟨result, hresult, hagrees i result hresult⟩
  · obtain ⟨first, hfirst⟩ := hmade 0 (by decide)
    obtain ⟨second, hsecond⟩ := hmade 1 (by decide)
    exact ⟨first, second, hfirst, hsecond, happart 0 1 first second (by decide) hfirst hsecond⟩

end EmvaultPkcs11
