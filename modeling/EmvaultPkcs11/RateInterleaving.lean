import EmvaultPkcs11.IdealVendor
import EmvaultPkcs11.RateCounter

/-! Sessions that check and record the signature rate at the same time. `check_and_record_sigrate` reads
the counter, looks at the clock, destroys the counter and creates a new one, call by call, and nothing
keeps another session from coming in between. It is atomic in runs in which a session changes the counter
only while no other one is in the middle of the operation; in others an entry can be lost. -/

open Effect Program

namespace EmvaultPkcs11

variable {K D R : Type}

/-! ### Reading first, then writing -/

theorem onlyReads_request {ε α : Type} (wrap : CryptokiError → ε) {call : Call D}
    (hreads : call.writes = false) (result : Reply K call → Except CryptokiError α) :
    OnlyReads Call.writes (Session.request wrap call result) := by
  refine ⟨hreads, fun reply => ?_⟩
  cases h : result reply <;> simp [orStop, h, OnlyReads]

theorem onlyWrites_request {ε α : Type} (wrap : CryptokiError → ε) {call : Call D}
    (hwrites : call.writes = true) (result : Reply K call → Except CryptokiError α) :
    OnlyWrites Call.writes (Session.request wrap call result) := by
  refine ⟨hwrites, fun reply => ?_⟩
  cases h : result reply <;> simp [orStop, h, OnlyWrites]

theorem onlyReads_ofExcept {ε α : Type} (x : Except (Stop ε) α) :
    OnlyReads Call.writes (Program.ofExcept x : TokenProgram K D ε α) := by
  cases x <;> trivial

theorem loadRecord_onlyReads (objectLabel : String) (absent : R) (fromSlice : Bytes → Except String R) :
    OnlyReads Call.writes (loadRecord objectLabel absent fromSlice : TokenProgram K D _ _) := by
  refine onlyReads_bind (onlyReads_request _ rfl _) fun handles => ?_
  split
  · trivial
  · exact onlyReads_bind (onlyReads_request _ rfl _) fun attributes => onlyReads_ofExcept _

theorem destroyAll_onlyWrites (handles : List ObjectHandle) :
    OnlyWrites Call.writes (destroyAll handles : TokenProgram K D _ _) := by
  induction handles with
  | nil => trivial
  | cons handle rest ih => exact onlyWrites_bind (onlyWrites_request _ rfl _) fun _ => ih

theorem saveRecord_readsThenWrites {α : Type} (objectLabel : String) (toVec : R → Except String Bytes)
    (record : R) {f : ObjectHandle → TokenProgram K D Pkcs11Error α}
    (hf : ∀ handle, OnlyWrites Call.writes (f handle)) :
    ReadsThenWrites Call.writes (saveRecord objectLabel toVec record >>= f) := by
  rw [saveRecord, bind_assoc']
  refine readsThenWrites_bind (onlyReads_request _ rfl _) fun existing => ?_
  rw [bind_assoc']
  refine readsThenWrites_bind_of_onlyWrites (destroyAll_onlyWrites existing) fun _ => ?_
  cases toVec record with
  | error reason => exact ⟨trivial, trivial⟩
  | ok bytes =>
      have hcreate : OnlyWrites Call.writes (Session.createObject Pkcs11Error.pkcs11
          (recordTemplate objectLabel bytes) : TokenProgram K D _ _) :=
        onlyWrites_request _ rfl _
      have hrest := onlyWrites_bind hcreate hf
      exact ⟨hrest, Or.inl hrest⟩

/-- The operation reads the counter and the clock first and returns only after it has stored the new
counter. -/
theorem recordSigrate_readsThenWrites (serde : Serde) (label : String) (max : UInt32) :
    ReadsThenWrites Call.writes (recordSigrate serde label max : TokenProgram K D _ _) := by
  refine readsThenWrites_bind (loadRecord_onlyReads _ _ _) fun counter => ?_
  refine readsThenWrites_bind ⟨rfl, fun _ => trivial⟩ fun now => ?_
  refine readsThenWrites_bind (onlyReads_ofExcept _) fun result => ?_
  dsimp only
  split
  · trivial
  · rw [saveSigrate, bind_assoc']
    exact saveRecord_readsThenWrites _ _ _ fun _ => trivial

/-! ### What the operation keeps -/

/-- The timestamps in the stored counter. -/
def Hsm.storedTimes (hsm : Hsm K D) (serde : Serde) (label : String) (m : Machine K) : List Nat :=
  match hsm.storedCounter serde label m with
  | .ok counter => counter.timestamps
  | .error _ => []

/-- The calls that returned with the timestamps in `log` are recorded: those of the last hour are in the
stored counter, and no hour has more than `max` of them. -/
structure Recorded (hsm : Hsm K D) (serde : Serde) (label : String) (max : UInt32) (log : List Nat)
    (m : Machine K) : Prop where
  bounded : Window.Bounded 3600 max.toNat log
  present : Window.Present 3600 (hsm.clock m.calls) log (hsm.storedTimes serde label m)

section

variable {hsm : Hsm K D} {serde : Serde} {label : String} {max : UInt32} {log : List Nat} {m m' : Machine K}

theorem Recorded.read (hclock : Monotone hsm.clock) (h : Recorded hsm serde label max log m)
    (hticked : m.Ticked m') : Recorded hsm serde label max log m' := by
  have htimes : hsm.storedTimes serde label m' = hsm.storedTimes serde label m := by
    rw [Hsm.storedTimes, Hsm.storedCounter, hsm.stored_eq_of_dataObjects _ _ hticked.dataObjects,
      ← Hsm.storedCounter, ← Hsm.storedTimes]
  exact ⟨h.bounded, htimes ▸ h.present.mono (hclock hticked.calls)⟩

/-- Recording one more call. -/
theorem Recorded.record (hclock : Monotone hsm.clock) (h : Recorded hsm serde label max log m) {c : Nat}
    (hfrom : m.calls ≤ c) (hto : c ≤ m'.calls) {counter : SigRateCounter}
    (hstored : hsm.storedCounter serde label m = .ok counter)
    (hroom : (counter.prune (hsm.clock c)).timestamps.length < max.toNat) {bytes : Bytes}
    (hbytes : serde.counterFromSlice bytes =
      .ok ((counter.prune (hsm.clock c)).record (hsm.clock c)))
    (hreplaces : Machine.Replaces (sigrateLabel label) bytes m m') :
    Recorded hsm serde label max (log ++ [hsm.clock c]) m' := by
  have htimes : hsm.storedTimes serde label m = counter.timestamps := by
    rw [Hsm.storedTimes, hstored]
  have htimes' : hsm.storedTimes serde label m' =
      (counter.timestamps.filter fun t => hsm.clock c - 3600 ≤ t) ++ [hsm.clock c] := by
    rw [Hsm.storedTimes, Hsm.storedCounter, hreplaces.stored_self hsm hbytes]
    rfl
  have hpresent : Window.Present 3600 (hsm.clock c) log counter.timestamps :=
    htimes ▸ h.present.mono (hclock hfrom)
  refine ⟨h.bounded.record hpresent.covers ?_ (Nat.le_refl _), ?_⟩
  · rw [List.countP_eq_length_filter]
    exact hroom
  · rw [htimes']
    exact (hpresent.prune.record _).mono (hclock hto)

/-- Amid the readings of others the operation records the call it returns from, and no other. -/
theorem recordSigrate_endsWell (hfree : hsm.FaultFree) (hclock : Monotone hsm.clock)
    (hserde : serde.CounterRoundTrip) (h : Recorded hsm serde label max log m) :
    Pool.EndsWell hsm.exec Machine.Ticked (Recorded hsm serde label max) log
      (recordSigrate serde label max) m := by
  refine wpAmid_mono (amid_recordSigrate hsm label max hfree hserde m) (fun now m' h' => ?_)
    (fun e m' h' => h.read hclock h'.1)
  obtain ⟨c, counter, bytes, hfrom, hto, rfl, hstored, hroom, hbytes, hreplaces⟩ := h'
  exact h.record hclock hfrom hto hstored hroom hbytes hreplaces

end

/-! ### Runs -/

/-- Sessions on one token that call `check_and_record_sigrate` for one label under one ceiling, after a
schedule of their calls. -/
def sigrateSessions {ι : Type} [DecidableEq ι] (hsm : Hsm K D) (serde : Serde) (label : String)
    (max : UInt32) (m : Machine K) (schedule : List ι) : Pool (Session K D) (Stop Pkcs11Error) Nat (Machine K) ι :=
  (Pool.start m).run hsm.exec Call.writes (recordSigrate serde label max) schedule

/-- Whatever the sessions do in whatever order, if each destroys and creates objects only while no other
is in the middle of the operation, then no hour has more than `max` calls that return, and whenever no
session is in the middle of replacing the counter, it has the timestamps of all calls of the last hour
that have returned. -/
theorem sigrate_of_exclusive {ι : Type} [DecidableEq ι] {hsm : Hsm K D} {serde : Serde}
    (hfree : hsm.FaultFree) (hclock : Monotone hsm.clock) (hserde : serde.CounterRoundTrip) (label : String)
    (max : UInt32) (m : Machine K) (schedule : List ι)
    (hexclusive : Pool.Exclusive hsm.exec Call.writes (recordSigrate serde label max) (Pool.start m)
      schedule) :
    (∀ T, ((sigrateSessions hsm serde label max m schedule).returned.filter
      fun t => T - 3600 ≤ t ∧ t ≤ T).length ≤ max.toNat) ∧
    ((sigrateSessions hsm serde label max m schedule).Quiet →
      ((sigrateSessions hsm serde label max m schedule).returned.filter fun t =>
          hsm.clock (sigrateSessions hsm serde label max m schedule).device.calls - 3600 ≤ t).Sublist
        (hsm.storedTimes serde label (sigrateSessions hsm serde label max m schedule).device)) := by
  have hstable (log : List Nat) (m m' : Machine K) (hticked : m.Ticked m')
      (h : Recorded hsm serde label max log m) : Recorded hsm serde label max log m' :=
    h.read hclock hticked
  have hprogram (log : List Nat) (m : Machine K) (h : Recorded hsm serde label max log m) :
      Pool.EndsWell hsm.exec Machine.Ticked (Recorded hsm serde label max) log
        (recordSigrate serde label max) m :=
    recordSigrate_endsWell hfree hclock hserde h
  have hstart : Recorded hsm serde label max [] m := ⟨Window.bounded_nil _ _, Window.present_nil _ _ _⟩
  have hkept := Pool.kept_run (fun call m h => Machine.Ticked.of_reading hsm h m) Machine.Ticked.refl
    (fun _ _ _ => Machine.Ticked.trans) hstable
    (recordSigrate_readsThenWrites serde label max) hprogram schedule _ (Pool.kept_start hstart) hexclusive
  refine ⟨fun T => ?_, fun hquiet => (hkept.good_of_quiet hquiet).present⟩
  obtain ⟨_, hgood⟩ := hkept.exists_good
  rw [← List.countP_eq_length_filter]
  exact hgood.bounded T

open IdealVendor in
/-- Two sessions, one after the other. -/
theorem two_sessions_in_turn :
    ((sigrateSessions token serde "a" 2 .empty [0, 0, 0, 0, 1, 1, 1, 1, 1, 1, (1 : Fin 2)]).returned.filter
      fun t => 3600 - 3600 ≤ t ∧ t ≤ 3600).length ≤ 2 :=
  (sigrate_of_exclusive (fun _ => rfl) (fun _ _ h => h) counterRoundTrip "a" 2 .empty _
    (by decide +kernel)).1 3600

open IdealVendor in
/-- Under a ceiling of one, two sessions that both read before either writes both return, and the second
replaces the counter of the first by one without its entry. -/
theorem entry_lost :
    (sigrateSessions token serde "a" 1 .empty [0, 0, 1, 1, 0, 0, 1, 1, (1 : Fin 2)]).returned = [1, 3] ∧
    token.storedTimes serde "a"
      (sigrateSessions token serde "a" 1 .empty [0, 0, 1, 1, 0, 0, 1, 1, (1 : Fin 2)]).device = [3] ∧
    ∀ i, (sigrateSessions token serde "a" 1 .empty [0, 0, 1, 1, 0, 0, 1, 1, (1 : Fin 2)]).threads i = none := by
  decide +kernel

end EmvaultPkcs11
