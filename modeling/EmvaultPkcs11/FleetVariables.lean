import EmvaultPkcs11.FleetConfig
import EmvaultPkcs11.LibraryNumerals
import EmvaultPkcs11.LibrarySearch

/-! The loop of `Fleet::from_env`. No two of its variables have the same name, so a finite environment has a
first index without a vendor, and the loop ends there. What it comes to is a pass over the indices before the
gap, each of which is read on its own. -/

open Effect

namespace EmvaultPkcs11

namespace Fleet

/-! ### Names of variables -/

theorem toList_fkey (i : Nat) (field : String) :
    (fkey i field).toList = "EMVAULT_FLEET_".toList ++ ((toString i).toList ++ '_' :: field.toList) := by
  show ("EMVAULT_FLEET_" ++ toString i ++ "_" ++ field).toList = _
  simp only [String.toList_append, List.append_assoc]
  rfl

theorem ends_of_not_digit {c : Char} (hc : c.isDigit = false) (rest : List Char) : Numeral.Ends (c :: rest) := by
  intro d hd
  obtain rfl := Option.some.inj hd
  exact hc

/-- A name tells the index and the field. -/
theorem fkey_inj {i j : Nat} {field field' : String} (h : fkey i field = fkey j field') :
    i = j ∧ field = field' := by
  have hchars := congrArg String.toList h
  rw [toList_fkey, toList_fkey] at hchars
  obtain ⟨rfl, hrest⟩ := Numeral.append_inj (ends_of_not_digit rfl _) (ends_of_not_digit rfl _)
    (List.append_cancel_left hchars)
  exact ⟨rfl, String.toList_inj.mp (List.cons.inj hrest).2⟩

/-- No variable of a member is the one of the network. -/
theorem fkey_ne_network (i : Nat) (field : String) : fkey i field ≠ "EMVAULT_FLEET_NETWORK" := by
  intro h
  have hchars := congrArg String.toList h
  rw [toList_fkey, show "EMVAULT_FLEET_NETWORK".toList = "EMVAULT_FLEET_".toList ++ "NETWORK".toList from rfl]
    at hchars
  have hrest := List.append_cancel_left hchars
  obtain ⟨c, digits, heq⟩ := List.exists_cons_of_ne_nil (Numeral.toList_ne_nil i)
  have hc := Numeral.isDigit_of_mem (n := i) (heq ▸ List.mem_cons_self)
  rw [heq, List.cons_append] at hrest
  obtain ⟨rfl, -⟩ := List.cons.inj hrest
  cases hc

/-! ### The first gap -/

section

variable (env : Environment)

def vendorAt (i : Nat) : Option String := opt env (fkey i "VENDOR")

/-- The index and all before it have a vendor. -/
def Present (i : Nat) : Prop := ∀ j ≤ i, (vendorAt env j).isSome

/-- The first index without a vendor. -/
structure Gap (n : Nat) : Prop where
  before : ∀ i < n, (vendorAt env i).isSome
  absent : vendorAt env n = none

variable {env}

theorem Gap.present_iff {n : Nat} (hgap : Gap env n) {i : Nat} : Present env i ↔ i < n := by
  constructor
  · intro hpresent
    by_contra hle
    have hsome := hpresent n (Nat.le_of_not_lt hle)
    rw [hgap.absent] at hsome
    cases hsome
  · exact fun hi j hj => hgap.before j (Nat.lt_of_le_of_lt hj hi)

theorem mem_names_of_opt {k : String} (h : (opt env k).isSome) : k ∈ env.map Prod.fst := by
  have hlookup : (env.lookup k).isSome := by
    rw [opt] at h
    cases hvalue : env.lookup k with
    | none => rw [hvalue] at h; cases h
    | some value => rfl
  obtain ⟨entry, hentry, hk⟩ := List.lookup_isSome_iff.mp hlookup
  obtain rfl := eq_of_beq hk
  exact List.mem_map_of_mem hentry

/-- Members that follow one another are no more than the variables there are. -/
theorem le_length_of_present (env : Environment) {n : Nat} (h : ∀ i < n, (vendorAt env i).isSome) :
    n ≤ env.length := by
  have hnames : ((List.range n).map fun i => fkey i "VENDOR").Nodup :=
    List.nodup_range.map fun i j hij => (fkey_inj hij).1
  have hsubset : ((List.range n).map fun i => fkey i "VENDOR") ⊆ env.map Prod.fst := by
    intro k hk
    obtain ⟨i, hi, rfl⟩ := List.mem_map.mp hk
    exact mem_names_of_opt (h i (List.mem_range.mp hi))
  have hle := (hnames.subperm hsubset).length_le
  rwa [List.length_map, List.length_range, List.length_map] at hle

variable (env) in
/-- Every finite environment has a gap. -/
theorem exists_gap : ∃ n ≤ env.length, Gap env n := by
  have habsent : ∃ n, vendorAt env n = none := by
    by_contra hall
    push Not at hall
    have hle : env.length + 1 ≤ env.length :=
      le_length_of_present env fun i _ => Option.isSome_iff_ne_none.mpr (hall i)
    omega
  have hgap : Gap env (Nat.find habsent) :=
    ⟨fun i hi => Option.isSome_iff_ne_none.mpr (Nat.find_min habsent hi), Nat.find_spec habsent⟩
  exact ⟨_, le_length_of_present env hgap.before, hgap⟩

end

/-! ### The loop -/

section

variable {K D : Type} (registry : BackendRegistry K D) (parsePath : String → Except String DerivationPath)
  (env : Environment) (network : Network)

/-- What a round of the loop comes to. -/
def memberAt (i : Nat) : Except (Stop Pkcs11Error) (FleetMember K D) :=
  readSpec parsePath env network i ((vendorAt env i).getD "") >>= equip registry

variable {env} {n : Nat} (hgap : Gap env n)
include hgap

/-- The loop is a pass over the indices before the gap. -/
theorem membersFrom_eq {fuel i : Nat} (hi : i ≤ n) (hfuel : n - i < fuel) (members : List (FleetMember K D)) :
    membersFrom registry parsePath env network fuel i members =
      some (((List.range' i (n - i)).mapM (memberAt registry parsePath env network)).map (members ++ ·)) := by
  induction fuel generalizing i members with
  | zero => omega
  | succ fuel ih =>
      rw [membersFrom]
      by_cases hend : i = n
      · subst hend
        have habsent : opt env (fkey i "VENDOR") = none := hgap.absent
        rw [habsent, Nat.sub_self]
        simp [Except.map, pure, Except.pure]
      · obtain ⟨vendor, hvendor⟩ := Option.isSome_iff_exists.mp (hgap.before i (by omega))
        have hround : readSpec parsePath env network i vendor >>= equip registry =
            memberAt registry parsePath env network i := by
          rw [memberAt, hvendor, Option.getD_some]
        have hvendor : opt env (fkey i "VENDOR") = some vendor := hvendor
        rw [hvendor, show n - i = n - (i + 1) + 1 by omega, List.range'_succ, List.mapM_cons]
        simp only [hround]
        cases memberAt registry parsePath env network i with
        | error e => rfl
        | ok m =>
            simp only [ih (i := i + 1) (by omega) (by omega)]
            cases (List.range' (i + 1) (n - (i + 1))).mapM (memberAt registry parsePath env network) <;>
              simp [bind, Except.bind, pure, Except.pure, Except.map]

/-- With fuel for the rounds before the gap, `from_env` reads the network and then each member in turn. -/
theorem fromEnv_eq {fuel : Nat} (hfuel : n < fuel) :
    fromEnv registry parsePath env fuel = some (do
      let network ← parseNetwork (envOr env "EMVAULT_FLEET_NETWORK" "testnet")
      let members ← (List.range n).mapM (memberAt registry parsePath env network)
      if members.isEmpty then .error (.err (.invalidConfig "no EMVAULT_FLEET_0_VENDOR found"))
      else .ok members) := by
  rw [fromEnv]
  cases parseNetwork (envOr env "EMVAULT_FLEET_NETWORK" "testnet") with
  | error e => rfl
  | ok network =>
      have hloop := membersFrom_eq registry parsePath network hgap (Nat.zero_le n) (by omega) []
      rw [Nat.sub_zero, ← List.range_eq_range'] at hloop
      simp only [hloop, Option.map_some, List.nil_append, bind, Except.bind]
      cases (List.range n).mapM (memberAt registry parsePath env network) <;> rfl

/-- What the members read are if the fleet is accepted. -/
theorem fromEnv_ok_iff {fuel : Nat} (hfuel : n < fuel) {members : List (FleetMember K D)} :
    fromEnv registry parsePath env fuel = some (.ok members) ↔
      ∃ network, parseNetwork (envOr env "EMVAULT_FLEET_NETWORK" "testnet") = .ok network ∧ 0 < n ∧
        members.length = n ∧
        ∀ i < n, ∃ m, members[i]? = some m ∧ memberAt registry parsePath env network i = .ok m := by
  rw [fromEnv_eq registry parsePath hgap hfuel, Option.some.injEq, bind_eq_ok]
  refine exists_congr fun network => and_congr_right fun _ => ?_
  have hcheck (read : List (FleetMember K D)) :
      (if read.isEmpty then .error (.err (.invalidConfig "no EMVAULT_FLEET_0_VENDOR found"))
        else .ok read : Except (Stop Pkcs11Error) (List (FleetMember K D))) = .ok members ↔
          read ≠ [] ∧ read = members := by
    cases read <;> simp
  simp only [bind_eq_ok, hcheck, Search.mapM_range_eq_ok_iff]
  constructor
  · rintro ⟨read, ⟨hlength, hread⟩, hne, rfl⟩
    exact ⟨hlength ▸ List.length_pos_iff.mpr hne, hlength, hread⟩
  · rintro ⟨hpos, hlength, hread⟩
    exact ⟨members, ⟨hlength, hread⟩, List.length_pos_iff.mp (hlength ▸ hpos), rfl⟩

/-- The fleet is refused, or the reading of it panics, with the first member that cannot be read. -/
theorem fromEnv_error_iff {fuel : Nat} (hfuel : n < fuel) (hpos : 0 < n) {network : Network}
    (hnetwork : parseNetwork (envOr env "EMVAULT_FLEET_NETWORK" "testnet") = .ok network)
    {stop : Stop Pkcs11Error} : fromEnv registry parsePath env fuel = some (.error stop) ↔
      ∃ i < n, memberAt registry parsePath env network i = .error stop ∧
        ∀ j < i, ∃ m, memberAt registry parsePath env network j = .ok m := by
  rw [fromEnv_eq registry parsePath hgap hfuel, Option.some.injEq, hnetwork, ← Search.mapM_range_eq_error_iff]
  simp only [bind, Except.bind]
  cases hread : (List.range n).mapM (memberAt registry parsePath env network) with
  | error stop' => rfl
  | ok members =>
      have hne : members ≠ [] :=
        List.length_pos_iff.mp ((Search.mapM_range_eq_ok_iff.mp hread).1 ▸ hpos)
      simp [hne]

end

/-- Reading a fleet ends, with the same result for every fuel above the number of variables. -/
theorem fromEnv_terminates {K D : Type} (registry : BackendRegistry K D)
    (parsePath : String → Except String DerivationPath) (env : Environment) :
    ∃ result, ∀ fuel, env.length < fuel → fromEnv registry parsePath env fuel = some result := by
  obtain ⟨n, hle, hgap⟩ := exists_gap env
  exact ⟨_, fun fuel hfuel => fromEnv_eq registry parsePath hgap (Nat.lt_of_le_of_lt hle hfuel)⟩

end Fleet

end EmvaultPkcs11
