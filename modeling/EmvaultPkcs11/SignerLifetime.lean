import EmvaultPkcs11.RecordHistory
import EmvaultPkcs11.SigningRun

/-! The records of a signer over its life. Until it records the signature rate a signing call leaves the policy and
the counter alone and does not panic; this asks of a vendor only that its programs stay away from the data objects
and do not panic themselves. -/

open Effect

namespace EmvaultPkcs11

variable {K D X T ε α : Type}

/-! ### Vendors that stay away from the records -/

/-- The handle is not that of a data object. -/
def Machine.NotData (m : Machine K) (handle : ObjectHandle) : Prop := ∀ entry ∈ m.dataObjects, entry.1 ≠ handle

/-- A vendor's programs leave the data objects alone, name no data object as a derived key, and do not panic. -/
structure HsmBackend.KeysOnly (hsm : Hsm K D) (backend : HsmBackend K D) : Prop where
  derivePath : ∀ handle path m, path ≠ [] →
    wp (Program.run hsm.exec (backend.derivePath handle path))
      (fun handle' m' => m'.dataObjects = m.dataObjects ∧ m'.NotData handle')
      (fun e m' => (∃ a, e = .err a) ∧ m'.dataObjects = m.dataObjects) m
  segwit : ∀ segwit, backend.segwitSigner = some segwit → ∀ handle digest m,
    Steady Machine.dataObjects (Program.run hsm.exec (segwit.signEcdsa handle digest)) m
  taproot : ∀ taproot, backend.taprootSigner = some taproot → ∀ handle label path digest m,
    Steady Machine.dataObjects (Program.run hsm.exec (taproot.signSchnorr handle label path digest)) m

theorem Machine.NotData.of_dataObjects {m m' : Machine K} {handle : ObjectHandle} (h : m.NotData handle)
    (hdata : m'.dataObjects = m.dataObjects) : m'.NotData handle := by
  rw [NotData, hdata]
  exact h

theorem Machine.NotData.destroy {m : Machine K} {handle : ObjectHandle} (h : m.NotData handle) :
    (m.destroy handle).dataObjects = m.dataObjects := by
  rw [dataObjects, objects_destroy, List.filter_comm, ← dataObjects, List.filter_eq_self]
  intro entry hentry
  simpa using h entry hentry

section

variable (recipe : AttributeDerivation K D) (crates : Crates D) (hsm : Hsm K D)

theorem Machine.dataObjects_create_of_not_mem (m : Machine K) {object : Object K}
    (hclass : .objectClass .data ∉ object.attributes) : (m.create object).dataObjects = m.dataObjects := by
  simp [dataObjects, hclass]

/-- The handle of the next object is that of no object there is. -/
theorem Machine.notData_nextHandle (m : Machine K) : m.NotData m.nextHandle := by
  intro entry hentry heq
  exact absurd (m.handles_lt entry (List.mem_filter.mp hentry).1) (heq ▸ lt_irrefl entry.1)

/-- Deriving a path from any handle makes no data object, and gives the handle of none unless it gives back the
handle it was given. -/
theorem AttributeDerivation.wp_derivePath_notData (path : DerivationPath) :
    ∀ m handle, wp (Program.run hsm.exec (recipe.derivePath handle path))
      (fun handle' m' => m'.dataObjects = m.dataObjects ∧ (path ≠ [] ∨ m.NotData handle → m'.NotData handle'))
      (fun e m' => (∃ a, e = .err a) ∧ m'.dataObjects = m.dataObjects) m := by
  induction path with
  | nil => exact fun m handle => ⟨rfl, fun h => h.resolve_left (absurd rfl)⟩
  | cons child path ih =>
      intro m handle
      have htick := (Machine.Ticked.tick m).dataObjects
      rw [derivePath, Program.wp_run_bind, deriveChildKey, Session.wp_deriveKey]
      refine ⟨fun e _ => ⟨⟨_, rfl⟩, htick⟩, fun _ => ?_⟩
      cases m.object? handle with
      | none => exact ⟨⟨_, rfl⟩, htick⟩
      | some object =>
          cases hderive : hsm.derive
              (.vendorDefined recipe.childDeriveMechanism (recipe.childParameter child)) object with
          | error e => simpa only [hderive] using ⟨⟨_, rfl⟩, htick⟩
          | ok key =>
              simp only [hderive]
              have hdata : (m.create ⟨childKeyTemplate, some key⟩).tick.dataObjects = m.dataObjects :=
                m.dataObjects_create_of_not_mem (show IsChild ⟨childKeyTemplate, some key⟩ from rfl).not_data
              have hfresh : (m.create ⟨childKeyTemplate, some key⟩).tick.NotData m.nextHandle :=
                m.notData_nextHandle.of_dataObjects hdata
              exact wp_mono (ih _ m.nextHandle)
                (fun handle' m' h => ⟨h.1.trans hdata, fun _ => h.2 (Or.inr hfresh)⟩)
                fun _ _ h => ⟨h.1, h.2.trans hdata⟩

theorem steady_signWithLowS (handle : ObjectHandle) (digest : D) (m : Machine K) :
    Steady Machine.dataObjects (Program.run hsm.exec (signWithLowS crates handle digest)) m := by
  have htick := (Machine.Ticked.tick m).dataObjects
  rw [Steady, signWithLowS, Program.wp_run_bind, Session.wp_sign]
  refine ⟨fun e _ => ⟨⟨_, rfl⟩, htick⟩, fun _ => ?_⟩
  cases m.object? handle with
  | none => exact ⟨⟨_, rfl⟩, htick⟩
  | some object =>
      cases hkey : object.key with
      | none => simpa only [hkey] using ⟨⟨_, rfl⟩, htick⟩
      | some key =>
          simp only [hkey]
          split
          · exact ⟨⟨_, rfl⟩, htick⟩
          · cases crates.fromCompact (hsm.ecdsa key digest) with
            | error e => exact ⟨⟨_, rfl⟩, htick⟩
            | ok sig => exact htick

/-- The blanket backend stays away from the records, for every recipe whose Schnorr signer does. -/
theorem AttributeDerivation.keysOnly
    (htaproot : ∀ taproot, recipe.taprootSigner = some taproot → ∀ handle label path digest m,
      Steady Machine.dataObjects (Program.run hsm.exec (taproot.signSchnorr handle label path digest)) m) :
    (recipe.toHsmBackend crates).KeysOnly hsm where
  derivePath handle path m hne := by
    refine wp_mono (recipe.wp_derivePath_notData hsm path m handle) (fun handle' m' h => ?_) fun _ _ h => h
    exact ⟨h.1, h.2 (Or.inl hne)⟩
  segwit segwit hsegwit handle digest m := by
    obtain rfl := Option.some.inj hsegwit
    rw [Steady, pkcs11EcdsaSigner, Program.wp_run_mapError]
    refine wp_mono (steady_signWithLowS crates hsm handle digest m) (fun _ _ h => h) (fun e m' h => ?_)
    obtain ⟨⟨a, rfl⟩, hdata⟩ := h
    exact ⟨⟨_, rfl⟩, hdata⟩
  taproot := htaproot

end

/-- The contract of such a vendor: between signatures the token has the data objects it had in `m₀`, and nothing
panics. -/
def HsmBackend.KeysOnly.contract {hsm : Hsm K D} {signer : Pkcs11Signer K D}
    (hkeys : signer.backend.KeysOnly hsm) (m₀ : Machine K) : SigningContract hsm signer where
  idle m := m.dataObjects = m₀.dataObjects
  holding _ handle m := m.dataObjects = m₀.dataObjects ∧ (handle ≠ signer.loaded.privateKey → m.NotData handle)
  signed _ _ := True
  refused _ := True
  calm := True
  idle_of_ticked hidle hticked := hticked.dataObjects.trans hidle
  idle_of_holding hholding := hholding.1
  holding_federation hidle := ⟨hidle, absurd rfl⟩
  derivePath path m hne hidle :=
    wp_mono (hkeys.derivePath signer.loaded.privateKey path m hne)
      (fun _ _ h => ⟨h.1.trans hidle, fun _ => h.2⟩) fun _ _ h => ⟨h.2.trans hidle, fun _ _ => trivial, fun _ => h.1⟩
  signEcdsa segwit hsegwit target _ _ _ handle m hholding := by
    refine wp_mono (hkeys.segwit segwit hsegwit handle target.digest m) (fun _ m' hdata => ?_) fun _ m' h => ?_
    · exact ⟨⟨hdata.trans hholding.1, fun hne => (hholding.2 hne).of_dataObjects hdata⟩, trivial⟩
    · exact ⟨⟨h.2.trans hholding.1, fun hne => (hholding.2 hne).of_dataObjects h.2⟩, trivial, fun _ => h.1⟩
  noSegwit _ _ _ _ _ := trivial
  signSchnorr taproot htaproot target _ _ _ fullPath _ handle m hholding := by
    refine wp_mono (hkeys.taproot taproot htaproot handle signer.label fullPath target.digest m)
      (fun _ m' hdata => ?_) fun _ m' h => ⟨h.2.trans hholding.1, trivial, fun _ => h.1⟩
    exact ⟨⟨hdata.trans hholding.1, fun hne => (hholding.2 hne).of_dataObjects hdata⟩, trivial⟩
  idle_tick hholding := hholding.1
  idle_destroy hholding hne _ := (hholding.2 hne).destroy.trans hholding.1

/-! ### The records of a signer -/

/-- The token holds this policy for a signer and a counter that can be counted, each in one object the crate has
made or in none. -/
structure Machine.Filed (serde : Serde) (label : String) (policy : MinimalHsmPolicy) (m : Machine K) : Prop where
  policy : ∃ stored, m.Files (policyLabel label) serde.policyFromSlice stored ∧
    stored.getD .permissive = policy
  counter : ∃ stored, m.Files (sigrateLabel label) serde.counterFromSlice stored ∧
    (stored.getD .default).timestamps.length < 2 ^ 32

section

variable {serde : Serde} {label : String} {policy : MinimalHsmPolicy} {m m' : Machine K}

theorem Machine.Filed.of_dataObjects (h : m.Filed serde label policy) (hdata : m'.dataObjects = m.dataObjects) :
    m'.Filed serde label policy where
  policy := by
    obtain ⟨stored, hfiles, hpolicy⟩ := h.policy
    exact ⟨stored, hfiles.of_matching (matching_eq_of_dataObjects hdata (by simp [recordQuery])), hpolicy⟩
  counter := by
    obtain ⟨stored, hfiles, hlength⟩ := h.counter
    exact ⟨stored, hfiles.of_matching (matching_eq_of_dataObjects hdata (by simp [recordQuery])), hlength⟩

/-- A token without records of the signer holds the permissive policy. -/
theorem Machine.filed_of_matching_nil (hpolicy : m.matching (recordQuery (policyLabel label)) = [])
    (hcounter : m.matching (recordQuery (sigrateLabel label)) = []) : m.Filed serde label .permissive :=
  ⟨⟨none, hpolicy, rfl⟩, ⟨none, hcounter, by simp [SigRateCounter.default]⟩⟩

variable {hsm : Hsm K D} (hfree : hsm.FaultFree)
include hfree

/-- Loading gives the policy. -/
theorem wp_loadPolicy_filed (h : m.Filed serde label policy) :
    wp (Program.run hsm.exec (loadPolicy serde label)) (fun loaded m' => loaded = policy ∧ m.Ticked m')
      (fun _ _ => False) m := by
  obtain ⟨stored, hfiles, hpolicy⟩ := h.policy
  have hstored := hfiles.stored hsm .permissive
  rw [hpolicy] at hstored
  have hload := wp_loadRecord hsm (policyLabel label) MinimalHsmPolicy.permissive serde.policyFromSlice m
  refine wp_mono hload (fun loaded m' h' => ⟨?_, h'.2⟩) (fun e m' h' => ?_)
  · exact Except.ok.inj (h'.1.symm.trans hstored)
  · have herror := h'.1 hfree
    rw [hstored] at herror
    cases herror

/-- Replacing the policy gives the new one. -/
theorem wp_savePolicy_filed (hpolicies : serde.PolicyRoundTrip) (h : m.Filed serde label policy)
    (new : MinimalHsmPolicy) :
    wp (Program.run hsm.exec (savePolicy serde label new)) (fun _ m' => m'.Filed serde label new)
      (fun _ _ => False) m := by
  obtain ⟨bytes, htoVec, hfromSlice⟩ := hpolicies new
  refine wp_mono (wp_saveRecord hsm (policyLabel label) serde.policyToVec new m) (fun _ m' h' => ?_)
    (fun e m' h' => ?_)
  · obtain ⟨bytes', htoVec', hreplaces⟩ := h'
    obtain rfl : bytes' = bytes := Except.ok.inj (htoVec'.symm.trans htoVec)
    obtain ⟨stored, hfiles, hlength⟩ := h.counter
    exact ⟨⟨some new, hreplaces.files_self hfromSlice, rfl⟩,
      ⟨stored, hreplaces.files_other (policyLabel_ne_sigrateLabel label label).symm hfiles, hlength⟩⟩
  · obtain ⟨reason, htoVec', _⟩ := h'.2 hfree
    rw [htoVec] at htoVec'
    cases htoVec'

/-- Recording the signature rate, under any policy, keeps the policy and a counter that can be counted. -/
theorem wp_checkAndRecordSigrate_filed (hcounters : serde.CounterRoundTrip) (h : m.Filed serde label policy)
    (ceiling : MinimalHsmPolicy) :
    wp (Program.run hsm.exec (checkAndRecordSigrate serde label ceiling))
      (fun _ m' => m'.Filed serde label policy)
      (fun e m' => (∃ a, e = .err a) ∧ m'.Filed serde label policy) m := by
  cases hmax : ceiling.maxSignaturesPerHour with
  | none =>
      rw [checkAndRecordSigrate, hmax]
      exact h
  | some max =>
      obtain ⟨stored, hfiles, hlength⟩ := h.counter
      have hcall := wp_checkSigrate hfree hcounters hmax (hfiles.stored hsm .default)
      have hfits : (((stored.getD .default).prune (hsm.sigrateTime label m)).timestamps.length) < 2 ^ 32 :=
        (List.length_filter_le _ _).trans_lt hlength
      refine wp_mono hcall (fun _ m' h' => ?_) (fun e m' h' => ?_)
      · obtain ⟨hroom, _, bytes, _, _, _, hbytes, hreplaces⟩ := h'
        obtain ⟨record, hrecord, hpolicy⟩ := h.policy
        refine ⟨⟨record, hreplaces.files_other (policyLabel_ne_sigrateLabel label label) hrecord, hpolicy⟩,
          ⟨some _, hreplaces.files_self hbytes, ?_⟩⟩
        have hlimit := max.toNat_lt
        simp only [Option.getD_some, SigRateCounter.record, List.length_append, List.length_singleton]
        omega
      · obtain ⟨hticked, hrefused⟩ := h'
        obtain ⟨_, count, rfl⟩ := hrefused hfits
        exact ⟨⟨_, rfl⟩, h.of_dataObjects hticked.dataObjects⟩

end

end EmvaultPkcs11
