import EmvaultPkcs11.FleetVariables
import EmvaultPkcs11.PathText
import EmvaultPkcs11.SeedRequest

/-! What `Fleet::from_env` makes of an environment. A fleet that is written in the variables of the schema is
read back, member by member, each from the variables of its own index. An environment with a member that the
schema does not allow is refused, unless the hex digits of a seed are misread: then the reading may panic, or
take the member for another one. -/

open Effect

namespace EmvaultPkcs11

namespace Fleet

/-! ### Key texts -/

/-- What the schema says of the text of a key. -/
inductive KeyReads (text : String) : KeyInit → Prop
  | load (h : eqIgnoreAsciiCase (trim text) "load") : KeyReads text .load
  | shim (h : trim text = "" ∨ eqIgnoreAsciiCase (trim text) "shim") : KeyReads text (.deriveFromSeed [])
  | seed {hex : String} {seed : Bytes} (h : stripStart "seed:" (trim text) = some hex)
      (hseed : Denotes (trim hex).toList seed) : KeyReads text (.deriveFromSeed seed)

/-- A seed whose hex digits are misread. -/
def KeyMisread (text : String) : Prop :=
  ∃ hex, stripStart "seed:" (trim text) = some hex ∧ Mishandled (trim hex).toList

/-- A seed whose hex digits are cut within a character. -/
def KeyCut (text : String) : Prop :=
  ∃ hex, stripStart "seed:" (trim text) = some hex ∧ byteLen (trim hex).toList % 2 = 0 ∧ CutShort (trim hex).toList

/-- The branches of the reading of a key. -/
theorem parseKeyInit_eq (text : String) (i : Nat) : parseKeyInit text i =
    if eqIgnoreAsciiCase (trim text) "load" then .ok .load
    else if trim text = "" ∨ eqIgnoreAsciiCase (trim text) "shim" then .ok (.deriveFromSeed [])
    else
      let key := fkey i "KEY"
      match stripStart "seed:" (trim text) with
      | some hex => do
          let seed ← (decodeHex hex).mapError (Stop.map fun e => .invalidConfig s!"{key} seed hex: {e}")
          .ok (.deriveFromSeed seed)
      | none => .error (.err (.invalidConfig s!"{key}: expected 'shim', 'load', or 'seed:<hex>'")) := by
  cases hhex : stripStart "seed:" (trim text) with
  | none => simp only [parseKeyInit, Bool.or_eq_true, String.isEmpty_iff, hhex]
  | some hex => simp only [parseKeyInit, Bool.or_eq_true, String.isEmpty_iff, hhex]

theorem load_ne_shim {text : String} (h : trim text = "" ∨ eqIgnoreAsciiCase (trim text) "shim") :
    ¬eqIgnoreAsciiCase (trim text) "load" := by
  intro hload
  have hload := of_decide_eq_true hload
  rcases h with h | h
  · rw [h] at hload
    exact absurd hload (by decide)
  · rw [of_decide_eq_true h] at hload
    exact absurd hload (by decide)

theorem parseKeyInit_of_reads {text : String} {keyInit : KeyInit} (h : KeyReads text keyInit) (i : Nat) :
    parseKeyInit text i = .ok keyInit := by
  cases h with
  | load h => rw [parseKeyInit_eq, if_pos h]
  | shim h => rw [parseKeyInit_eq, if_neg (load_ne_shim h), if_pos h]
  | seed h hseed =>
      rw [parseKeyInit_seed h, decodeHex_of_denotes hseed]
      rfl

/-- A key text that is taken and not misread is read as the schema says. -/
theorem reads_of_parseKeyInit {text : String} {keyInit : KeyInit} {i : Nat} (hread : ¬KeyMisread text)
    (h : parseKeyInit text i = .ok keyInit) : KeyReads text keyInit := by
  rw [parseKeyInit_eq] at h
  by_cases hload : eqIgnoreAsciiCase (trim text) "load"
  · rw [if_pos hload] at h
    obtain rfl := Except.ok.inj h
    exact .load hload
  rw [if_neg hload] at h
  by_cases hshim : trim text = "" ∨ eqIgnoreAsciiCase (trim text) "shim"
  · rw [if_pos hshim] at h
    obtain rfl := Except.ok.inj h
    exact .shim hshim
  rw [if_neg hshim] at h
  cases hhex : stripStart "seed:" (trim text) with
  | none =>
      rw [hhex] at h
      cases h
  | some hex =>
      simp only [hhex, bind_eq_ok, mapError_eq_ok, Except.ok.injEq] at h
      obtain ⟨seed, hseed, rfl⟩ := h
      have hplus : '+' ∉ (trim hex).toList := fun hplus =>
        hread ⟨hex, hhex, mishandled_of_sign hseed hplus⟩
      exact .seed hhex ((decodeHex_eq_ok hplus).mp hseed)

/-- The reading of a key panics exactly if its hex digits are cut within a character. -/
theorem not_calm_parseKeyInit_iff {text : String} {i : Nat} : ¬Calm (parseKeyInit text i) ↔ KeyCut text := by
  cases hhex : stripStart "seed:" (trim text) with
  | some hex =>
      have hcut : KeyCut text ↔ byteLen (trim hex).toList % 2 = 0 ∧ CutShort (trim hex).toList := by
        simp only [KeyCut, hhex, Option.some.injEq, exists_eq_left']
      rw [parseKeyInit_seed hhex, hcut]
      refine (not_congr (calm_bind_iff fun seed => Calm.ok _)).trans ?_
      rw [calm_mapError_iff, calm_decodeHex_iff, not_not]
  | none =>
      have hcut : ¬KeyCut text := by
        rintro ⟨hex, hhex', -⟩
        rw [hhex] at hhex'
        cases hhex'
      refine iff_of_false (not_not_intro ?_) hcut
      rw [parseKeyInit_eq, hhex]
      split_ifs
      · exact Calm.ok _
      · exact Calm.ok _
      · exact Calm.err _

/-! ### Members -/

section

variable {K D : Type} (registry : BackendRegistry K D) (parsePath : String → Except String DerivationPath)
  (env : Environment)

/-- What the schema says of the slot of a member. -/
inductive SlotReads (i : Nat) : SlotIdentifier → Prop
  | label {text : String} (h : opt env (fkey i "SLOT") = some text) : SlotReads i (.label text)
  | slotId {text : String} {id : UInt64} (h : opt env (fkey i "SLOT") = none)
      (hid : opt env (fkey i "SLOT_ID") = some text) (hparse : parseU64 text = .ok id) : SlotReads i (.slotId id)

def keyText (i : Nat) : String := (opt env (fkey i "KEY")).getD "shim"

/-- The variables of an index are those of the member, its key being read by `reads`. -/
structure Describes (reads : String → KeyInit → Prop) (network : Network) (i : Nat) (spec : MemberEnv) : Prop where
  vendor : vendorAt env i = some spec.vendor
  label : opt env (fkey i "LABEL") = some spec.label
  libraryPath : opt env (fkey i "LIB") = some spec.libraryPath
  slot : SlotReads env i spec.slot
  pin : opt env (fkey i "PIN") = some spec.pin
  derivationPath : ∃ text, opt env (fkey i "PATH") = some text ∧ parsePath text = .ok spec.derivationPath
  keyInit : reads (keyText env i) spec.keyInit
  network : spec.network = network

variable {env}

theorem parseSlot_of_reads {i : Nat} {slot : SlotIdentifier} (h : SlotReads env i slot) :
    parseSlot env i = .ok slot := by
  cases h with
  | label h => simp only [parseSlot, h]
  | slotId h hid hparse => simp only [parseSlot, h, hid, hparse]

theorem reads_of_parseSlot {i : Nat} {slot : SlotIdentifier} (h : parseSlot env i = .ok slot) :
    SlotReads env i slot := by
  cases hlabel : opt env (fkey i "SLOT") with
  | some label =>
      simp only [parseSlot, hlabel, Except.ok.injEq] at h
      exact h ▸ .label hlabel
  | none =>
      cases hid : opt env (fkey i "SLOT_ID") with
      | none => simp only [parseSlot, hlabel, hid, reduceCtorEq] at h
      | some text =>
          cases hparse : parseU64 text with
          | error e => simp only [parseSlot, hlabel, hid, hparse, reduceCtorEq] at h
          | ok id =>
              simp only [parseSlot, hlabel, hid, hparse, Except.ok.injEq] at h
              exact h ▸ .slotId hlabel hid hparse

/-- The slot of a member is read exactly as the schema says. -/
theorem parseSlot_eq_ok_iff {i : Nat} {slot : SlotIdentifier} :
    parseSlot env i = .ok slot ↔ SlotReads env i slot :=
  ⟨reads_of_parseSlot, parseSlot_of_reads⟩

theorem req_eq_ok_iff {i : Nat} {field value : String} :
    req env i field = .ok value ↔ opt env (fkey i field) = some value := by
  simp only [req]
  cases opt env (fkey i field) <;> simp

theorem calm_req (i : Nat) (field : String) : Calm (req env i field) := by
  simp only [req]
  cases opt env (fkey i field) with
  | some value => exact Calm.ok _
  | none => exact Calm.err _

theorem calm_parseSlot (i : Nat) : Calm (parseSlot env i) := by
  unfold parseSlot
  cases opt env (fkey i "SLOT") with
  | some label => exact Calm.ok _
  | none =>
      cases opt env (fkey i "SLOT_ID") with
      | none => exact Calm.err _
      | some text =>
          cases hparse : parseU64 text with
          | ok id => simpa only [hparse] using Calm.ok _
          | error e => simpa only [hparse] using Calm.err _

variable {parsePath}

/-- A member is read exactly as its variables describe it. -/
theorem readSpec_eq_ok_iff {network : Network} {i : Nat} {vendor : String} (hvendor : vendorAt env i = some vendor)
    {spec : MemberEnv} : readSpec parsePath env network i vendor = .ok spec ↔
      Describes parsePath env (fun text keyInit => parseKeyInit text i = .ok keyInit) network i spec := by
  simp only [readSpec, bind_eq_ok, mapError_eq_ok, req_eq_ok_iff, parseSlot_eq_ok_iff]
  constructor
  · rintro ⟨label, hlabel, libraryPath, hlibrary, slot, hslot, pin, hpin, text, htext, path, hpath, keyInit, hkey,
      ⟨⟩⟩
    exact ⟨hvendor, hlabel, hlibrary, hslot, hpin, ⟨text, htext, hpath⟩, hkey, rfl⟩
  · rintro h
    obtain ⟨text, htext, hpath⟩ := h.derivationPath
    refine ⟨_, h.label, _, h.libraryPath, _, h.slot, _, h.pin, text, htext, _, hpath, _, h.keyInit, ?_⟩
    have hsame : vendor = spec.vendor := Option.some.inj (hvendor.symm.trans h.vendor)
    rw [hsame, ← h.network]

variable (parsePath env) in
/-- The variables of an index that are read before its key are as the schema says. -/
def Leading (i : Nat) : Prop :=
  (∃ label, opt env (fkey i "LABEL") = some label) ∧ (∃ libraryPath, opt env (fkey i "LIB") = some libraryPath) ∧
    (∃ slot, SlotReads env i slot) ∧ (∃ pin, opt env (fkey i "PIN") = some pin) ∧
    ∃ text path, opt env (fkey i "PATH") = some text ∧ parsePath text = .ok path

theorem not_calm_readSpec_iff {network : Network} {i : Nat} {vendor : String} :
    ¬Calm (readSpec parsePath env network i vendor) ↔ Leading parsePath env i ∧ KeyCut (keyText env i) := by
  have hpath (text : String) (f : String → Pkcs11Error) :
      Calm ((parsePath text).mapError fun e => .err (f e)) := by
    cases parsePath text with
    | ok path => exact Calm.ok _
    | error e => exact Calm.err _
  have hlast (spec : MemberEnv) : Calm (.ok spec : Except (Stop Pkcs11Error) MemberEnv) := Calm.ok spec
  simp only [readSpec, not_calm_bind_iff, calm_req, calm_parseSlot, hpath, hlast, not_true_eq_false, false_or,
    and_false, exists_false, or_false, not_calm_parseKeyInit_iff, req_eq_ok_iff, parseSlot_eq_ok_iff,
    mapError_eq_ok]
  constructor
  · rintro ⟨label, hlabel, libraryPath, hlibrary, slot, hslot, pin, hpin, text, htext, path, hpath, hcut⟩
    exact ⟨⟨⟨label, hlabel⟩, ⟨libraryPath, hlibrary⟩, ⟨slot, hslot⟩, ⟨pin, hpin⟩, text, path, htext, hpath⟩, hcut⟩
  · rintro ⟨⟨⟨label, hlabel⟩, ⟨libraryPath, hlibrary⟩, ⟨slot, hslot⟩, ⟨pin, hpin⟩, text, path, htext, hpath⟩, hcut⟩
    exact ⟨label, hlabel, libraryPath, hlibrary, slot, hslot, pin, hpin, text, htext, path, hpath, hcut⟩

/-- The vendor of the member is registered and accepts it. -/
def Accepts (spec : MemberEnv) (makeBackend : BackendFactory K D) : Prop :=
  ∃ registrar, registry spec.vendor = some registrar ∧ registrar spec = .ok makeBackend

variable {registry}

theorem equip_eq_ok_iff {spec : MemberEnv} {m : FleetMember K D} : equip registry spec = .ok m ↔
    ∃ makeBackend, Accepts registry spec makeBackend ∧ m = spec.member makeBackend := by
  unfold equip Accepts
  cases registry spec.vendor with
  | none => simp
  | some registrar =>
      simp only [Option.some.injEq, exists_eq_left']
      cases registrar spec <;> simp [eq_comm]

theorem calm_equip (spec : MemberEnv) : Calm (equip registry spec) := by
  unfold equip
  cases registry spec.vendor with
  | none => exact Calm.err _
  | some registrar =>
      cases hspec : registrar spec with
      | ok makeBackend => simpa only [hspec] using Calm.ok _
      | error e => simpa only [hspec] using Calm.err _

/-- A member is admitted exactly if its variables describe it and its vendor accepts it. -/
theorem memberAt_eq_ok_iff {network : Network} {i : Nat} (hvendor : (vendorAt env i).isSome)
    {m : FleetMember K D} : memberAt registry parsePath env network i = .ok m ↔ ∃ spec makeBackend,
      Describes parsePath env (fun text keyInit => parseKeyInit text i = .ok keyInit) network i spec ∧
        Accepts registry spec makeBackend ∧ m = spec.member makeBackend := by
  obtain ⟨vendor, hvendor⟩ := Option.isSome_iff_exists.mp hvendor
  simp only [memberAt, hvendor, Option.getD_some, bind_eq_ok, readSpec_eq_ok_iff hvendor, equip_eq_ok_iff,
    exists_and_left]

/-- The reading of a member panics exactly if its key is cut and nothing before the key is at fault. -/
theorem not_calm_memberAt_iff {network : Network} {i : Nat} : ¬Calm (memberAt registry parsePath env network i) ↔
    Leading parsePath env i ∧ KeyCut (keyText env i) := by
  rw [memberAt, calm_bind_iff calm_equip, not_calm_readSpec_iff]

/-! ### Faults -/

variable (registry parsePath env)

/-- The variables of the index are not those of a member that the schema allows and a vendor accepts. -/
def Faulty (network : Network) (i : Nat) : Prop :=
  ¬∃ spec makeBackend, Describes parsePath env KeyReads network i spec ∧ Accepts registry spec makeBackend

/-- The key of the index is cut, and nothing before it is at fault. -/
def Panics (i : Nat) : Prop := Leading parsePath env i ∧ KeyCut (keyText env i)

/-- The variables of the index are those of a member, as its key is read, and a vendor accepts it. -/
def Admitted (network : Network) (i : Nat) : Prop :=
  ∃ spec makeBackend,
    Describes parsePath env (fun text keyInit => parseKeyInit text i = .ok keyInit) network i spec ∧
      Accepts registry spec makeBackend

/-- A variable of the index is missing or refused, or no vendor accepts the member. -/
def Refused (network : Network) (i : Nat) : Prop :=
  ¬Panics parsePath env i ∧ ¬Admitted registry parsePath env network i

/-- If a member before the first gap is faulty, the fleet is refused. -/
def FaultsReported : Prop :=
  ∀ network fuel, parseNetwork (envOr env "EMVAULT_FLEET_NETWORK" "testnet") = .ok network → env.length < fuel →
    (∃ i, Present env i ∧ Faulty registry parsePath env network i) →
      ∃ e, fromEnv registry parsePath env fuel = some (.error (.err e))

/-- No key is misread, or a member is refused before the reading panics. -/
def KeysReadable : Prop :=
  ∀ network, parseNetwork (envOr env "EMVAULT_FLEET_NETWORK" "testnet") = .ok network →
    (∀ i, Present env i → ¬KeyMisread (keyText env i)) ∨
      ∃ i, Present env i ∧ Refused registry parsePath env network i ∧ ∀ j < i, ¬Panics parsePath env j

variable {registry parsePath env}

theorem memberAt_ok_iff {network : Network} {i : Nat} (hvendor : (vendorAt env i).isSome) :
    (∃ m, memberAt registry parsePath env network i = .ok m) ↔ Admitted registry parsePath env network i := by
  simp only [memberAt_eq_ok_iff hvendor, Admitted]
  constructor
  · rintro ⟨m, spec, makeBackend, hspec, haccepts, -⟩
    exact ⟨spec, makeBackend, hspec, haccepts⟩
  · rintro ⟨spec, makeBackend, hspec, haccepts⟩
    exact ⟨_, spec, makeBackend, hspec, haccepts, rfl⟩

theorem memberAt_err_iff {network : Network} {i : Nat} (hvendor : (vendorAt env i).isSome) :
    (∃ e, memberAt registry parsePath env network i = .error (.err e)) ↔
      Refused registry parsePath env network i := by
  have hpanics : ¬Calm (memberAt registry parsePath env network i) ↔ Panics parsePath env i :=
    not_calm_memberAt_iff
  rw [Refused, ← memberAt_ok_iff hvendor, ← hpanics, not_not]
  cases memberAt registry parsePath env network i with
  | ok m => simp
  | error stop =>
      cases stop with
      | err e => exact iff_of_true ⟨e, rfl⟩ ⟨Calm.err e, nofun⟩
      | panic message => exact iff_of_false nofun fun h => h.1 message rfl

theorem misread_of_cut {text : String} (h : KeyCut text) : KeyMisread text := by
  obtain ⟨hex, hhex, hcut⟩ := h
  exact ⟨hex, hhex, Or.inl hcut⟩

/-- The schema has no reading of a key that is misread. -/
theorem not_reads_of_misread {text : String} {keyInit : KeyInit} (h : KeyMisread text) :
    ¬KeyReads text keyInit := by
  obtain ⟨hex, hhex, hmishandled⟩ := h
  rintro (hload | hshim | ⟨hhex', hseed⟩)
  · rw [ne_word_of_seed hhex (by decide)] at hload
    cases hload
  · rcases hshim with hempty | hshim
    · exact ne_empty_of_seed hhex hempty
    · rw [ne_word_of_seed hhex (by decide)] at hshim
      cases hshim
  · rw [hhex, Option.some.injEq] at hhex'
    subst hhex'
    rcases hmishandled with hcut | ⟨-, hplus⟩
    · have hcalm : Calm (decodeHex hex) := by
        rw [decodeHex_of_denotes hseed]
        exact Calm.ok _
      exact calm_decodeHex_iff.mp hcalm hcut
    · exact plus_not_mem_of_denotes hseed hplus

theorem faulty_of_misread {network : Network} {i : Nat} (hmisread : KeyMisread (keyText env i)) :
    Faulty registry parsePath env network i := by
  rintro ⟨spec, makeBackend, hspec, -⟩
  exact not_reads_of_misread hmisread hspec.keyInit

theorem refused_of_faulty {network : Network} {i : Nat} (hread : ¬KeyMisread (keyText env i))
    (hfaulty : Faulty registry parsePath env network i) : Refused registry parsePath env network i := by
  refine ⟨fun hpanics => hread (misread_of_cut hpanics.2), ?_⟩
  rintro ⟨spec, makeBackend, hspec, haccepts⟩
  exact hfaulty ⟨spec, makeBackend, { hspec with keyInit := reads_of_parseKeyInit hread hspec.keyInit }, haccepts⟩

/-- A member that is refused before the reading panics has the fleet refused. -/
theorem fromEnv_err_of_refused {network : Network} {fuel i : Nat}
    (hnetwork : parseNetwork (envOr env "EMVAULT_FLEET_NETWORK" "testnet") = .ok network)
    (hfuel : env.length < fuel) (hpresent : Present env i) (hrefused : Refused registry parsePath env network i)
    (hbefore : ∀ j < i, ¬Panics parsePath env j) :
    ∃ e, fromEnv registry parsePath env fuel = some (.error (.err e)) := by
  obtain ⟨n, hle, hgap⟩ := exists_gap env
  have hi := hgap.present_iff.mp hpresent
  -- the first member that is not admitted is refused
  classical
  have hrefusal : ∃ k, ¬Admitted registry parsePath env network k := ⟨i, hrefused.2⟩
  have hfirst : Nat.find hrefusal ≤ i := Nat.find_min' hrefusal hrefused.2
  have hcalm : ¬Panics parsePath env (Nat.find hrefusal) := by
    by_cases heq : Nat.find hrefusal = i
    · exact heq ▸ hrefused.1
    · exact hbefore _ (by omega)
  obtain ⟨e, he⟩ := (memberAt_err_iff (hgap.before _ (by omega))).mpr ⟨hcalm, Nat.find_spec hrefusal⟩
  refine ⟨e, (fromEnv_error_iff registry parsePath hgap (by omega) (by omega) hnetwork).mpr ?_⟩
  refine ⟨_, by omega, he, fun j hj => ?_⟩
  exact (memberAt_ok_iff (hgap.before j (by omega))).mpr (not_not.mp (Nat.find_min hrefusal hj))

/-- Faults are reported exactly if no key is misread, or a member is refused before the reading panics. -/
theorem faultsReported_iff : FaultsReported registry parsePath env ↔ KeysReadable registry parsePath env := by
  constructor
  · intro hreported network hnetwork
    by_cases hall : ∀ i, Present env i → ¬KeyMisread (keyText env i)
    · exact Or.inl hall
    push Not at hall
    obtain ⟨i, hpresent, hmisread⟩ := hall
    obtain ⟨e, he⟩ := hreported network (env.length + 1) hnetwork (Nat.lt_succ_self _)
      ⟨i, hpresent, faulty_of_misread hmisread⟩
    obtain ⟨n, hle, hgap⟩ := exists_gap env
    have hpos : 0 < n := Nat.zero_lt_of_lt (hgap.present_iff.mp hpresent)
    obtain ⟨k, hk, herr, hbefore⟩ :=
      (fromEnv_error_iff registry parsePath hgap (by omega) hpos hnetwork).mp he
    refine Or.inr ⟨k, hgap.present_iff.mpr hk, (memberAt_err_iff (hgap.before k hk)).mp ⟨e, herr⟩, fun j hj => ?_⟩
    obtain ⟨m, hm⟩ := hbefore j hj
    have hpanics : ¬Calm (memberAt registry parsePath env network j) ↔ Panics parsePath env j :=
      not_calm_memberAt_iff
    rw [← hpanics, hm, not_not]
    exact Calm.ok m
  · rintro hreadable network fuel hnetwork hfuel ⟨i, hpresent, hfaulty⟩
    rcases hreadable network hnetwork with hread | ⟨k, hk, hrefused, hbefore⟩
    · apply fromEnv_err_of_refused hnetwork hfuel hpresent (refused_of_faulty (hread i hpresent) hfaulty)
      intro j hj hpanics
      exact hread j (fun k hk => hpresent k (by omega)) (misread_of_cut hpanics.2)
    · exact fromEnv_err_of_refused hnetwork hfuel hk hrefused hbefore

end

end Fleet

end EmvaultPkcs11
