import EmvaultPkcs11.FleetEnvironment
import EmvaultPkcs11.FleetValidation

/-! Writing a fleet in the variables of the schema. What is written is read back as the same list of members,
and of two environments that are read each member depends on the variables of its own index only. -/

open Effect

namespace EmvaultPkcs11

variable {K D : Type}

namespace Fleet

/-! ### Writing -/

/-- What a vendor is told of the member. -/
def specOf (m : FleetMember K D) : MemberEnv where
  vendor := m.vendor
  label := m.label
  libraryPath := m.libraryPath
  slot := m.slot
  pin := m.pin
  derivationPath := m.derivationPath
  network := m.network
  keyInit := m.keyInit

/-- The name the schema has for a network. -/
def networkName : Network → Option String
  | .bitcoin => some "bitcoin"
  | .testnet => some "testnet"
  | .testnet4 => none
  | .signet => some "signet"
  | .regtest => some "regtest"

def keyName : KeyInit → String
  | .load => "load"
  | .deriveFromSeed [] => "shim"
  | .deriveFromSeed (byte :: seed) => seedText (byte :: seed)

def slotFields : SlotIdentifier → List (String × String)
  | .label text => [("SLOT", text)]
  | .slotId id => [("SLOT_ID", toString id)]

/-- The fields of a member, with their texts. -/
def fields (spec : MemberEnv) : List (String × String) :=
  [("VENDOR", spec.vendor), ("LABEL", spec.label), ("LIB", spec.libraryPath)] ++ slotFields spec.slot ++
    [("PIN", spec.pin), ("PATH", pathText spec.derivationPath), ("KEY", keyName spec.keyInit)]

def writeMember (i : Nat) (spec : MemberEnv) : Environment :=
  (fields spec).map fun field => (fkey i field.1, field.2)

def writeMembers : Nat → List MemberEnv → Environment
  | _, [] => []
  | i, spec :: specs => writeMember i spec ++ writeMembers (i + 1) specs

/-- The variables of a fleet. -/
def writeFleet (name : String) (specs : List MemberEnv) : Environment :=
  ("EMVAULT_FLEET_NETWORK", name) :: writeMembers 0 specs

/-- The texts of a member that have to be non-empty are. -/
structure Writable (spec : MemberEnv) : Prop where
  vendor : spec.vendor ≠ ""
  label : spec.label ≠ ""
  libraryPath : spec.libraryPath ≠ ""
  slot : spec.slot ≠ .label ""
  pin : spec.pin ≠ ""

/-! ### Looking up what is written -/

theorem lookup_map_fkey (i : Nat) (field : String) (l : List (String × String)) :
    (l.map fun entry => (fkey i entry.1, entry.2)).lookup (fkey i field) = l.lookup field := by
  induction l with
  | nil => rfl
  | cons entry l ih =>
      have hkey : (fkey i field == fkey i entry.1) = (field == entry.1) := by
        rw [Bool.eq_iff_iff, beq_iff_eq, beq_iff_eq]
        exact ⟨fun h => (fkey_inj h).2, fun h => h ▸ rfl⟩
      rw [List.map_cons, List.lookup_cons, List.lookup_cons, hkey, ih]

theorem lookup_map_fkey_of_ne {i j : Nat} (hne : i ≠ j) (field : String) (l : List (String × String)) :
    (l.map fun entry => (fkey i entry.1, entry.2)).lookup (fkey j field) = none := by
  rw [List.lookup_eq_none_iff]
  intro entry hentry
  obtain ⟨entry, -, rfl⟩ := List.mem_map.mp hentry
  rw [bne_iff_ne]
  exact fun h => hne (fkey_inj h).1.symm

theorem lookup_writeMembers_before {i j : Nat} (hlt : j < i) (field : String) (specs : List MemberEnv) :
    (writeMembers i specs).lookup (fkey j field) = none := by
  induction specs generalizing i with
  | nil => rfl
  | cons spec specs ih =>
      rw [writeMembers, List.lookup_append, writeMember, lookup_map_fkey_of_ne (by omega), Option.none_or]
      exact ih (by omega)

/-- A variable that is written is a field of the member with its index. -/
theorem lookup_writeMembers (i j : Nat) (field : String) (specs : List MemberEnv) :
    (writeMembers i specs).lookup (fkey (i + j) field) =
      (specs[j]?).bind fun spec => (fields spec).lookup field := by
  induction specs generalizing i j with
  | nil => rfl
  | cons spec specs ih =>
      rw [writeMembers, List.lookup_append, writeMember]
      cases j with
      | zero =>
          rw [Nat.add_zero, lookup_writeMembers_before (Nat.lt_succ_self i), lookup_map_fkey, Option.or_none]
          rfl
      | succ j =>
          rw [lookup_map_fkey_of_ne (by omega), Option.none_or, show i + (j + 1) = i + 1 + j by omega, ih,
            List.getElem?_cons_succ]

section

variable {name : String} {specs : List MemberEnv} {i : Nat}

theorem lookup_writeFleet (field : String) :
    (writeFleet name specs).lookup (fkey i field) = (specs[i]?).bind fun spec => (fields spec).lookup field := by
  have hne : (fkey i field == "EMVAULT_FLEET_NETWORK") = false := beq_false_of_ne (fkey_ne_network i field)
  have hwritten := lookup_writeMembers 0 i field specs
  rw [Nat.zero_add] at hwritten
  rw [writeFleet, List.lookup_cons, hne, ← hwritten]

theorem opt_writeFleet_of_some {spec : MemberEnv} (hspec : specs[i]? = some spec) {field value : String}
    (hfield : (fields spec).lookup field = some value) (hvalue : value ≠ "") :
    opt (writeFleet name specs) (fkey i field) = some value := by
  rw [opt, lookup_writeFleet, hspec, Option.bind_some, hfield, Option.filter_some, if_pos (by simpa using hvalue)]

theorem opt_writeFleet_of_none {spec : MemberEnv} (hspec : specs[i]? = some spec) {field : String}
    (hfield : (fields spec).lookup field = none) : opt (writeFleet name specs) (fkey i field) = none := by
  rw [opt, lookup_writeFleet, hspec, Option.bind_some, hfield]
  rfl

end

theorem keyReads_keyName (keyInit : KeyInit) : KeyReads (keyName keyInit) keyInit := by
  cases keyInit with
  | load => exact .load (by decide +kernel)
  | deriveFromSeed seed =>
      cases seed with
      | nil => exact .shim (Or.inr (by decide +kernel))
      | cons byte seed => exact .seed (stripStart_seedText _) (denotes_lowerCase _)

theorem keyName_ne_empty (keyInit : KeyInit) : keyName keyInit ≠ "" := by
  cases keyInit with
  | load => exact (by decide : "load" ≠ "")
  | deriveFromSeed seed =>
      cases seed with
      | nil => exact (by decide : "shim" ≠ "")
      | cons byte seed =>
          intro h
          have hchars := congrArg String.toList h
          rw [keyName, toList_seedText] at hchars
          cases hchars

theorem pathText_ne_empty (path : DerivationPath) : pathText path ≠ "" := by
  unfold pathText
  split
  · decide
  · intro h
    have hchars := congrArg String.toList h
    rw [String.toList_append] at hchars
    cases hchars

theorem toString_ne_empty (id : UInt64) : toString id ≠ "" := by
  intro h
  exact Numeral.toList_ne_nil id.toNat (congrArg String.toList h)

/-- The variables of a written fleet describe its members. -/
theorem describes_writeFleet {parsePath : String → Except String DerivationPath}
    (hparse : ∀ path, parsePath (pathText path) = .ok path) (name : String) {specs : List MemberEnv} {i : Nat}
    {spec : MemberEnv} (hspec : specs[i]? = some spec) (hwritable : Writable spec) :
    Describes parsePath (writeFleet name specs) KeyReads spec.network i spec := by
  obtain ⟨vendor, label, libraryPath, slot, pin, path, network, keyInit⟩ := spec
  have hsome {field value : String}
      (hfield : (fields ⟨vendor, label, libraryPath, slot, pin, path, network, keyInit⟩).lookup field = some value)
      (hvalue : value ≠ "") : opt (writeFleet name specs) (fkey i field) = some value :=
    opt_writeFleet_of_some hspec hfield hvalue
  have hkey (htext : opt (writeFleet name specs) (fkey i "KEY") = some (keyName keyInit)) :
      KeyReads (keyText (writeFleet name specs) i) keyInit := by
    rw [keyText, htext]
    exact keyReads_keyName keyInit
  cases slot with
  | label text =>
      have htext : text ≠ "" := fun h => hwritable.slot (congrArg SlotIdentifier.label h)
      exact ⟨hsome rfl hwritable.vendor, hsome rfl hwritable.label, hsome rfl hwritable.libraryPath,
        .label (hsome rfl htext), hsome rfl hwritable.pin, ⟨_, hsome rfl (pathText_ne_empty path), hparse path⟩,
        hkey (hsome rfl (keyName_ne_empty keyInit)), rfl⟩
  | slotId id =>
      exact ⟨hsome rfl hwritable.vendor, hsome rfl hwritable.label, hsome rfl hwritable.libraryPath,
        .slotId (opt_writeFleet_of_none hspec rfl) (hsome rfl (toString_ne_empty id)) (parseU64_toString id),
        hsome rfl hwritable.pin, ⟨_, hsome rfl (pathText_ne_empty path), hparse path⟩,
        hkey (hsome rfl (keyName_ne_empty keyInit)), rfl⟩

theorem gap_writeFleet (name : String) {specs : List MemberEnv} (hwritable : ∀ spec ∈ specs, Writable spec) :
    Gap (writeFleet name specs) specs.length := by
  constructor
  · intro i hi
    have hspec := List.getElem?_eq_getElem hi
    have hvendor : vendorAt (writeFleet name specs) i = some specs[i].vendor :=
      opt_writeFleet_of_some hspec rfl (hwritable _ (List.getElem_mem hi)).vendor
    rw [hvendor]
    rfl
  · rw [vendorAt, opt, lookup_writeFleet, List.getElem?_eq_none (Nat.le_refl _)]
    rfl

theorem parseNetwork_networkName {network : Network} {name : String} (h : networkName network = some name) :
    name ≠ "" ∧ parseNetwork name = .ok network := by
  cases network with
  | testnet4 => cases h
  | bitcoin | testnet | signet | regtest =>
      obtain rfl := Option.some.inj h
      exact ⟨by decide, by decide +kernel⟩

theorem envOr_writeFleet {name : String} (hname : name ≠ "") (specs : List MemberEnv) (default : String) :
    envOr (writeFleet name specs) "EMVAULT_FLEET_NETWORK" default = name := by
  rw [envOr, opt, writeFleet, List.lookup_cons_self, Option.filter_some, if_pos (by simpa using hname),
    Option.getD_some]

/-! ### Reading back -/

section

variable (registry : BackendRegistry K D) (parsePath : String → Except String DerivationPath)

/-- A member that can be written under a network, and that its vendor makes of what is written. -/
structure Configured (network : Network) (m : FleetMember K D) : Prop where
  writable : Writable (specOf m)
  network : m.network = network
  accepted : Accepts registry (specOf m) m.makeBackend

variable {registry parsePath}

/-- A written fleet is read back as the same list of members. -/
theorem fromEnv_writeFleet (hparse : ∀ path, parsePath (pathText path) = .ok path) {network : Network}
    {name : String} (hname : networkName network = some name) {members : List (FleetMember K D)}
    (hne : members ≠ []) (hconfigured : ∀ m ∈ members, Configured registry network m) {fuel : Nat}
    (hfuel : members.length < fuel) :
    fromEnv registry parsePath (writeFleet name (members.map specOf)) fuel = some (.ok members) := by
  obtain ⟨hname, hnetwork⟩ := parseNetwork_networkName hname
  have hgap : Gap (writeFleet name (members.map specOf)) members.length := by
    have hwritable : ∀ spec ∈ members.map specOf, Writable spec :=
      List.forall_mem_map.mpr fun m hm => (hconfigured m hm).writable
    have h := gap_writeFleet name hwritable
    rwa [List.length_map] at h
  rw [fromEnv_ok_iff registry parsePath hgap hfuel]
  refine ⟨network, by rw [envOr_writeFleet hname, hnetwork], List.length_pos_iff.mpr hne, rfl, fun i hi => ?_⟩
  have hm := hconfigured members[i] (List.getElem_mem hi)
  have hspec : (members.map specOf)[i]? = some (specOf members[i]) := by
    rw [List.getElem?_map, List.getElem?_eq_getElem hi, Option.map_some]
  have hdescribes := describes_writeFleet hparse name hspec hm.writable
  refine ⟨members[i], List.getElem?_eq_getElem hi, (memberAt_eq_ok_iff (hgap.before i hi)).mpr ?_⟩
  have hnetwork : (specOf members[i]).network = network := hm.network
  rw [hnetwork] at hdescribes
  exact ⟨specOf members[i], members[i].makeBackend,
    { hdescribes with keyInit := parseKeyInit_of_reads hdescribes.keyInit i }, hm.accepted, rfl⟩

/-- A member depends on the variables of its index only. -/
theorem memberAt_congr {env env' : Environment} {i : Nat}
    (h : ∀ field, env.lookup (fkey i field) = env'.lookup (fkey i field)) (network : Network) :
    memberAt registry parsePath env network i = memberAt registry parsePath env' network i := by
  have hopt (field : String) : opt env (fkey i field) = opt env' (fkey i field) := by rw [opt, opt, h]
  simp only [memberAt, vendorAt, readSpec, req, parseSlot, hopt]

/-- Fleets that are read under one network have the same member at an index whose variables are the same. -/
theorem fromEnv_member_congr {env env' : Environment} {fuel fuel' : Nat} (hfuel : env.length < fuel)
    (hfuel' : env'.length < fuel') {members members' : List (FleetMember K D)}
    (hread : fromEnv registry parsePath env fuel = some (.ok members))
    (hread' : fromEnv registry parsePath env' fuel' = some (.ok members'))
    (hnetwork : env.lookup "EMVAULT_FLEET_NETWORK" = env'.lookup "EMVAULT_FLEET_NETWORK") {i : Nat}
    (hi : i < members.length) (hi' : i < members'.length)
    (hsame : ∀ field, env.lookup (fkey i field) = env'.lookup (fkey i field)) : members[i]? = members'[i]? := by
  obtain ⟨n, hle, hgap⟩ := exists_gap env
  obtain ⟨n', hle', hgap'⟩ := exists_gap env'
  obtain ⟨network, hparsed, -, hlength, hmembers⟩ := (fromEnv_ok_iff registry parsePath hgap (by omega)).mp hread
  obtain ⟨network', hparsed', -, hlength', hmembers'⟩ :=
    (fromEnv_ok_iff registry parsePath hgap' (by omega)).mp hread'
  have henv : envOr env "EMVAULT_FLEET_NETWORK" "testnet" = envOr env' "EMVAULT_FLEET_NETWORK" "testnet" := by
    rw [envOr, envOr, opt, opt, hnetwork]
  rw [henv, hparsed', Except.ok.injEq] at hparsed
  obtain ⟨m, hget, hm⟩ := hmembers i (by omega)
  obtain ⟨m', hget', hm'⟩ := hmembers' i (by omega)
  rw [← hparsed, memberAt_congr hsame, hm', Except.ok.injEq] at hm
  rw [hget, hget', hm]

variable (registry parsePath)

/-- What reading a fleet promises, and when it reports the faults of an environment. -/
structure ReadsFleets : Prop where
  terminates : ∀ env, ∃ result, ∀ fuel, env.length < fuel → fromEnv registry parsePath env fuel = some result
  roundTrip : ∀ network name (members : List (FleetMember K D)), networkName network = some name → members ≠ [] →
    (∀ m ∈ members, Configured registry network m) → ∀ fuel, members.length < fuel →
      fromEnv registry parsePath (writeFleet name (members.map specOf)) fuel = some (.ok members)
  byIndex : ∀ (env env' : Environment) fuel fuel' members members' (i : Nat),
    env.length < fuel → env'.length < fuel' →
    fromEnv registry parsePath env fuel = some (.ok members) →
    fromEnv registry parsePath env' fuel' = some (.ok members') →
    env.lookup "EMVAULT_FLEET_NETWORK" = env'.lookup "EMVAULT_FLEET_NETWORK" →
    i < members.length → i < members'.length →
    (∀ field, env.lookup (fkey i field) = env'.lookup (fkey i field)) → members[i]? = members'[i]?
  faults : ∀ env, FaultsReported registry parsePath env ↔ KeysReadable registry parsePath env

variable {registry parsePath}

/-- Fleets are read as they are written, and faults are reported exactly in environments with readable keys. -/
theorem fromEnv_reads_fleets (hparse : ∀ path, parsePath (pathText path) = .ok path) :
    ReadsFleets registry parsePath where
  terminates := fromEnv_terminates registry parsePath
  roundTrip _ _ _ hname hne hconfigured _ hfuel := fromEnv_writeFleet hparse hname hne hconfigured hfuel
  byIndex _ _ _ _ _ _ _ hfuel hfuel' hread hread' hnetwork hi hi' hsame :=
    fromEnv_member_congr hfuel hfuel' hread hread' hnetwork hi hi' hsame
  faults _ := faultsReported_iff

end

end Fleet

namespace IdealVendor

/-- A registry with one vendor, who accepts every member. -/
def registry : Fleet.BackendRegistry Key Digest := fun vendor =>
  if vendor = "ideal" then some fun _ => .ok fun _ => recipe.toHsmBackend crates else none

/-- The variables of a fleet of one member, with a text for its key. -/
def keyed (key : String) : Fleet.Environment :=
  (Fleet.fkey 0 "KEY", key) :: Fleet.writeFleet "testnet" [Fleet.specOf (memberOf "ideal" "lib.so")]

/-- The keys of the members that are read. -/
def keysRead (env : Fleet.Environment) : Option (Except (Stop Pkcs11Error) (List KeyInit)) :=
  (Fleet.fromEnv registry readPath env 16).map fun result => result.map (List.map FleetMember.keyInit)

open Fleet in
theorem parseNetwork_keyed (key : String) :
    parseNetwork (envOr (keyed key) "EMVAULT_FLEET_NETWORK" "testnet") = .ok .testnet := by
  have hname : networkName .testnet = some "testnet" := rfl
  have hlookup : (keyed key).lookup "EMVAULT_FLEET_NETWORK" = some "testnet" := by
    rw [keyed, List.lookup_cons, beq_false_of_ne (fkey_ne_network 0 "KEY").symm, writeFleet]
    exact List.lookup_cons_self
  rw [envOr, opt, hlookup, Option.filter_some, if_pos (by simp), Option.getD_some,
    (parseNetwork_networkName hname).2]

open Fleet in
theorem not_reported {key : String} (hmisread : KeyMisread (keyText (keyed key) 0))
    (hread : ∀ e, keysRead (keyed key) ≠ some (.error (.err e))) :
    ¬FaultsReported registry readPath (keyed key) := by
  intro hreported
  have hpresent : Present (keyed key) 0 := by
    intro j hj
    obtain rfl := Nat.le_zero.mp hj
    rfl
  have hlength : (keyed key).length < 16 := (by decide : 9 < 16)
  obtain ⟨e, he⟩ := hreported .testnet 16 (parseNetwork_keyed key) hlength
    ⟨0, hpresent, faulty_of_misread hmisread⟩
  apply hread e
  rw [keysRead, he]
  rfl

end IdealVendor

open IdealVendor Fleet in
theorem registry_reads_fleets : ReadsFleets registry readPath := fromEnv_reads_fleets readPath_pathText

open IdealVendor Fleet in
/-- A key with a sign for a digit is taken, and one that is cut makes the reading panic. -/
theorem misread_keys_not_reported :
    keysRead (keyed "seed:+f") = some (.ok [.deriveFromSeed [15]]) ∧
    keysRead (keyed "seed:aéb") = some (.error (.panic "byte index is out of bounds or not a char boundary")) ∧
    ¬FaultsReported registry readPath (keyed "seed:+f") ∧
    ¬FaultsReported registry readPath (keyed "seed:aéb") := by
  have hplus : keysRead (keyed "seed:+f") = some (.ok [.deriveFromSeed [15]]) := by decide +kernel
  have hcut : keysRead (keyed "seed:aéb") =
      some (.error (.panic "byte index is out of bounds or not a char boundary")) := by decide +kernel
  refine ⟨hplus, hcut, not_reported ⟨"+f", by decide +kernel, Or.inr ?_⟩ ?_,
    not_reported ⟨"aéb", by decide +kernel, Or.inl ?_⟩ ?_⟩
  · rw [show (trim "+f").toList = ['+', 'f'] by decide +kernel]
    exact ⟨⟨⟨Or.inr rfl, by decide⟩, trivial⟩, by decide⟩
  · rw [hplus]
    exact nofun
  · rw [show (trim "aéb").toList = ['a', 'é', 'b'] by decide +kernel]
    exact ⟨by decide, Or.inr (Or.inl ⟨by decide, by decide⟩)⟩
  · rw [hcut]
    exact nofun

end EmvaultPkcs11
