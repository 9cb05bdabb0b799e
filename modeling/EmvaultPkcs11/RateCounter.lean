import EmvaultPkcs11.LibraryWindow
import EmvaultPkcs11.TokenReaders

/-! Checking and recording the signature rate (`check_and_record_sigrate`) on a token that serves every
call and that others do no more than read meanwhile: what the stored counter is afterwards, and that the
stored policy and the keys are what they were. -/

open Effect

namespace EmvaultPkcs11

variable {K D R : Type}

/-! ### Replacing one record -/

/-- No object is filed under both labels. -/
def Machine.FiledApart (m : Machine K) (label label' : String) : Prop :=
  ∀ entry ∈ m.objects, entry.2.matches (recordQuery label) → ¬entry.2.matches (recordQuery label')

theorem recordObject_matches (label : String) (bytes : Bytes) (label' : String) :
    (recordObject label bytes : Object K).matches (recordQuery label') ↔ label' = label := by
  simp [Object.matches, recordQuery, recordObject, recordTemplate]

/-- A stored record is read back as what its bytes decode to. -/
theorem Hsm.recordOf_recordObject (hsm : Hsm K D) (label : String) {bytes : Bytes}
    {fromSlice : Bytes → Except String R} {record : R} (hbytes : fromSlice bytes = .ok record)
    (handle : ObjectHandle) : hsm.recordOf label fromSlice (handle, recordObject label bytes) = .ok record := by
  simp [Hsm.recordOf, Hsm.attributesOf, recordObject, recordTemplate, decodeRecord, Attribute.type,
    Attribute.value?, hbytes]

namespace Machine.Replaces

variable {label : String} {bytes : Bytes} {m m' : Machine K} (h : Machine.Replaces label bytes m m')
include h

theorem matching_self : m'.matching (recordQuery label) = [(m.nextHandle, recordObject label bytes)] := by
  rw [matching, h.objects, List.filter_append, List.filter_filter]
  have hold : (m.objects.filter fun entry => entry.2.matches (recordQuery label) &&
      !entry.2.matches (recordQuery label)) = [] := by
    simp
  have hnew : (recordObject label bytes : Object K).matches (recordQuery label) = true :=
    (recordObject_matches label bytes label).mpr rfl
  rw [hold, List.nil_append, List.filter_singleton, hnew, cond_true]

theorem of_ticked {m₀ : Machine K} (hticked : m₀.Ticked m) : Machine.Replaces label bytes m₀ m' :=
  ⟨by rw [h.objects, hticked.objects, hticked.nextHandle], by rw [h.nextHandle, hticked.nextHandle],
    hticked.calls.trans h.calls⟩

/-- The record is read back as what its bytes decode to. -/
theorem stored_self (hsm : Hsm K D) {fromSlice : Bytes → Except String R} {record : R}
    (hbytes : fromSlice bytes = .ok record) (absent : R) :
    hsm.stored label fromSlice absent m' = .ok record := by
  rw [Hsm.stored, Hsm.records, h.matching_self, List.map_singleton, List.headD_cons,
    hsm.recordOf_recordObject label hbytes]

theorem matching_other {label' : String} (hne : label' ≠ label) (hapart : m.FiledApart label' label) :
    m'.matching (recordQuery label') = m.matching (recordQuery label') := by
  have hnew : (recordObject label bytes : Object K).matches (recordQuery label') = false := by
    rw [Bool.eq_false_iff, ne_eq, recordObject_matches]
    exact hne
  rw [matching, h.objects, List.filter_append, List.filter_filter, List.filter_singleton, hnew, cond_false,
    List.append_nil, matching]
  apply List.filter_congr
  intro entry hentry
  have hentry := hapart entry hentry
  cases hmatches : entry.2.matches (recordQuery label') with
  | false => rfl
  | true => simpa using hentry hmatches

/-- A record under another label is what it was. -/
theorem stored_other (hsm : Hsm K D) {label' : String} (hne : label' ≠ label)
    (hapart : m.FiledApart label' label) (fromSlice : Bytes → Except String R) (absent : R) :
    hsm.stored label' fromSlice absent m' = hsm.stored label' fromSlice absent m := by
  rw [Hsm.stored, Hsm.records, h.matching_other hne hapart, Hsm.stored, Hsm.records]

theorem filedApart {label' : String} (hne : label' ≠ label) (hapart : m.FiledApart label' label) :
    m'.FiledApart label' label := by
  intro entry hentry hmatches
  rw [h.objects, List.mem_append, List.mem_singleton] at hentry
  rcases hentry with hentry | rfl
  · exact hapart entry (List.mem_of_mem_filter hentry) hmatches
  · rw [recordObject_matches] at hmatches
    exact absurd hmatches hne

/-- An object that is no record stays. -/
theorem object?_of_some {handle : ObjectHandle} {object : Object K} (hobject : m.object? handle = some object)
    (hdata : .objectClass .data ∉ object.attributes) : m'.object? handle = some object := by
  rw [Machine.object?_eq_some_iff] at hobject ⊢
  rw [h.objects, List.mem_append, List.mem_filter]
  refine Or.inl ⟨hobject, ?_⟩
  simp [Object.matches, recordQuery, hdata]

end Machine.Replaces

/-! ### Checking and recording -/

/-- `serde_json` writes every counter, and reads back what it has written. -/
def Serde.CounterRoundTrip (serde : Serde) : Prop :=
  ∀ counter, ∃ bytes, serde.counterToVec counter = .ok bytes ∧ serde.counterFromSlice bytes = .ok counter

section

variable (hsm : Hsm K D) {serde : Serde} (label : String) (max : UInt32)

/-- The counter a signer's label is filed under. -/
def Hsm.storedCounter (serde : Serde) (label : String) (m : Machine K) :
    Except (Stop Pkcs11Error) SigRateCounter :=
  hsm.stored (sigrateLabel label) serde.counterFromSlice .default m

/-- The check passes if there is room under the ceiling, and then the counter is pruned and extended by
the time the clock showed; otherwise nothing is changed. -/
theorem amid_recordSigrate (hfree : hsm.FaultFree) (hserde : serde.CounterRoundTrip) (m : Machine K) :
    wpBesideReaders hsm
      (fun now m' => ∃ c counter bytes, m.calls ≤ c ∧ c ≤ m'.calls ∧ now = hsm.clock c ∧
        hsm.storedCounter serde label m = .ok counter ∧
        (counter.prune now).timestamps.length < max.toNat ∧
        serde.counterFromSlice bytes = .ok ((counter.prune now).record now) ∧
        Machine.Replaces (sigrateLabel label) bytes m m')
      (fun _ m' => m.Ticked m' ∧ ∀ counter, hsm.storedCounter serde label m = .ok counter →
        ∃ c, m.calls ≤ c ∧ max.toNat ≤ (counter.prune (hsm.clock c)).timestamps.length)
      (recordSigrate serde label max) m := by
  simp only [wpBesideReaders, recordSigrate, loadSigrate, Program.wpAmid_bind]
  refine Program.wpAmid_mono (amid_loadRecord hfree (sigrateLabel label) .default serde.counterFromSlice m)
    (fun counter m₁ h₁ => ?_) (fun e m₁ h₁ => ?_)
  case refine_2 =>
      refine ⟨h₁.1, fun counter hstored => ?_⟩
      rw [Hsm.storedCounter, h₁.2] at hstored
      cases hstored
  obtain ⟨hstored, hticked⟩ := h₁
  refine (amid_now hfree _).mpr fun m₂ h₂ => ?_
  have hcalls : m.calls ≤ m₂.calls := hticked.calls.trans h₂.calls
  have hread : m.Ticked m₂.tick := (hticked.trans h₂).trans (.tick m₂)
  have hfull (h : max.toNat ≤ (counter.prune (hsm.clock m₂.calls)).timestamps.length) :
      m.Ticked m₂.tick ∧ ∀ counter, hsm.storedCounter serde label m = .ok counter →
        ∃ c, m.calls ≤ c ∧ max.toNat ≤ (counter.prune (hsm.clock c)).timestamps.length := by
    refine ⟨hread, fun counter' hstored' => ⟨m₂.calls, hcalls, ?_⟩⟩
    obtain rfl : counter = counter' := Except.ok.inj (hstored.symm.trans hstored')
    exact h
  unfold SigRateCounter.pruneAndCount
  by_cases hfits : (counter.prune (hsm.clock m₂.calls)).timestamps.length < 2 ^ 32
  case neg =>
      simp only [hfits, if_false, Program.wpAmid_ofExcept, reduceCtorEq, false_implies, implies_true,
        true_and]
      exact fun e _ => hfull (max.toNat_lt.le.trans (Nat.not_lt.mp hfits))
  simp only [hfits, if_true, Program.wpAmid_ofExcept, Except.ok.injEq, reduceCtorEq, false_implies,
    implies_true, and_true]
  rintro _ rfl
  by_cases hcount : (counter.prune (hsm.clock m₂.calls)).timestamps.length ≥ max.toNat
  case pos =>
      rw [if_pos hcount]
      exact hfull hcount
  rw [if_neg hcount]
  simp only [saveSigrate, Program.wpAmid_bind]
  obtain ⟨bytes, htoVec, hfromSlice⟩ :=
    hserde ((counter.prune (hsm.clock m₂.calls)).record (hsm.clock m₂.calls))
  refine Program.wpAmid_mono (amid_saveRecord hfree (sigrateLabel label) serde.counterToVec _ m₂.tick)
    (fun _ m₃ h₃ => ?_) (fun e m₃ h₃ => ?_)
  · obtain ⟨bytes', htoVec', hreplaces⟩ := h₃
    obtain rfl : bytes' = bytes := Except.ok.inj (htoVec'.symm.trans htoVec)
    refine ⟨m₂.calls, counter, bytes', hcalls, (Nat.le_succ _).trans hreplaces.calls, rfl, hstored,
      Nat.not_le.mp hcount, hfromSlice, hreplaces.of_ticked hread⟩
  · obtain ⟨reason, htoVec'⟩ := h₃
    rw [htoVec] at htoVec'
    cases htoVec'

/-- Alone, with room under the ceiling. -/
theorem wp_recordSigrate (hfree : hsm.FaultFree) (hserde : serde.CounterRoundTrip) {m : Machine K}
    {counter : SigRateCounter} (hstored : hsm.storedCounter serde label m = .ok counter)
    (hroom : ∀ c, m.calls ≤ c → (counter.prune (hsm.clock c)).timestamps.length < max.toNat) :
    wp (Program.run hsm.exec (recordSigrate serde label max : TokenProgram K D _ _))
      (fun now m' => ∃ c bytes, m.calls ≤ c ∧ c ≤ m'.calls ∧ now = hsm.clock c ∧
        serde.counterFromSlice bytes = .ok ((counter.prune now).record now) ∧
        Machine.Replaces (sigrateLabel label) bytes m m')
      (fun _ _ => False) m := by
  refine wp_mono (Program.wp_of_wpAmid Machine.Ticked.refl
    (amid_recordSigrate hsm label max hfree hserde m)) (fun now m' h => ?_) (fun e m' h => ?_)
  · obtain ⟨c, counter', bytes, hfrom, hto, hnow, hstored', _, hbytes, hreplaces⟩ := h
    obtain rfl : counter = counter' := Except.ok.inj (hstored.symm.trans hstored')
    exact ⟨c, bytes, hfrom, hto, hnow, hbytes, hreplaces⟩
  · obtain ⟨c, hfrom, hfull⟩ := h.2 counter hstored
    exact absurd (hroom c hfrom) (Nat.not_lt.mpr hfull)

end

end EmvaultPkcs11
