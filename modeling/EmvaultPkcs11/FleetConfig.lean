import EmvaultPkcs11.Fleet

/-! Reading a fleet from `EMVAULT_FLEET_*` variables (the second half of fleet.rs). An environment is a finite
list of variables with Unicode values. The strings are the source's: a length and a position are counted in
bytes of UTF-8, and a slice that would cut a character panics. How a derivation path is parsed (`parsePath`)
and which vendors are registered are parameters. The loop over the members gets fuel, a number of rounds it
may take. -/

open Effect

namespace EmvaultPkcs11

variable {K D ε : Type}

/-! ### Strings and numbers -/

/-- `str::len`, for the characters of a string. -/
def byteLen (chars : List Char) : Nat := (chars.map Char.utf8Size).sum

/-- The first `n` bytes and the rest, if the cut is between two characters. -/
def splitAtByte : Nat → List Char → Option (List Char × List Char)
  | 0, chars => some ([], chars)
  | _ + 1, [] => none
  | n + 1, c :: chars =>
      if c.utf8Size ≤ n + 1 then
        (splitAtByte (n + 1 - c.utf8Size) chars).map fun split => (c :: split.1, split.2)
      else none

/-- `&s[start..stop]`. -/
def slice (s : String) (start stop : Nat) : Except (Stop ε) String :=
  match (splitAtByte start s.toList).bind fun split => splitAtByte (stop - start) split.2 with
  | some (piece, _) => .ok (.ofList piece)
  | none => .error (.panic "byte index is out of bounds or not a char boundary")

/-- `char::to_digit`. -/
def toDigit (radix : Nat) (c : Char) : Option Nat :=
  (if c.isDigit then some (c.toNat - '0'.toNat)
    else if c.isLower then some (c.toNat - 'a'.toNat + 10)
    else if c.isUpper then some (c.toNat - 'A'.toNat + 10)
    else none).filter (· < radix)

/-- The digits of a number after the ones that make up `value`. -/
def readDigits (radix bound : Nat) : Nat → List Char → Except String Nat
  | value, [] => .ok value
  | value, c :: chars =>
      match toDigit radix c with
      | none => .error "invalid digit found in string"
      | some digit =>
          if value * radix + digit < bound then readDigits radix bound (value * radix + digit) chars
          else .error "number too large to fit in target type"

/-- `from_str_radix` of the unsigned type with `bound` values. -/
def fromStrRadix (radix bound : Nat) (s : String) : Except String Nat :=
  match s.toList with
  | [] => .error "cannot parse integer from empty string"
  | ['+'] => .error "invalid digit found in string"
  | '+' :: digits => readDigits radix bound 0 digits
  | digits => readDigits radix bound 0 digits

/-- `str::parse::<u64>`. -/
def parseU64 (s : String) : Except String UInt64 := (fromStrRadix 10 (2 ^ 64) s).map UInt64.ofNat

/-- `str::to_ascii_lowercase`. -/
def toAsciiLowercase (s : String) : String := .ofList (s.toList.map Char.toLower)

/-- `str::eq_ignore_ascii_case`. -/
def eqIgnoreAsciiCase (s t : String) : Bool := toAsciiLowercase s = toAsciiLowercase t

/-- `str::strip_prefix`. -/
def stripStart (start s : String) : Option String :=
  if start.toList.isPrefixOf s.toList then some (.ofList (s.toList.drop start.toList.length)) else none

theorem stripStart_eq_some_iff {start s rest : String} :
    stripStart start s = some rest ↔ s.toList = start.toList ++ rest.toList := by
  unfold stripStart
  split
  case isTrue hstart =>
    obtain ⟨after, hafter⟩ := List.isPrefixOf_iff_prefix.mp hstart
    rw [← hafter, List.drop_left, Option.some.injEq, List.append_cancel_left_eq, ← String.toList_inj,
      String.toList_ofList]
  case isFalse hstart =>
    refine iff_of_false nofun fun heq => hstart ?_
    rw [List.isPrefixOf_iff_prefix, heq]
    exact List.prefix_append _ _

namespace Fleet

/-! ### Texts of the fields -/

/-- Two digits a byte, from the first byte on. -/
def decodeHex (s : String) : Except (Stop String) Bytes :=
  let s := trim s
  if byteLen s.toList % 2 ≠ 0 then .error (.err "odd-length hex")
  else (List.range' 0 (byteLen s.toList / 2) 2).mapM fun k => do
    let piece ← slice s k (k + 2)
    match fromStrRadix 16 (2 ^ 8) piece with
    | .ok value => .ok (UInt8.ofNat value)
    | .error e => .error (.err e)

/-- The name of a member's variable. -/
def fkey (i : Nat) (field : String) : String := s!"EMVAULT_FLEET_{i}_{field}"

def parseKeyInit (s : String) (i : Nat) : Except (Stop Pkcs11Error) KeyInit :=
  let s := trim s
  let key := fkey i "KEY"
  if eqIgnoreAsciiCase s "load" then .ok .load
  else if s.isEmpty || eqIgnoreAsciiCase s "shim" then .ok (.deriveFromSeed [])
  else
    match stripStart "seed:" s with
    | some hex => do
        let seed ← (decodeHex hex).mapError (Stop.map fun e => .invalidConfig s!"{key} seed hex: {e}")
        .ok (.deriveFromSeed seed)
    | none => .error (.err (.invalidConfig s!"{key}: expected 'shim', 'load', or 'seed:<hex>'"))

def parseNetwork (s : String) : Except (Stop Pkcs11Error) Network :=
  let other := toAsciiLowercase (trim s)
  if other = "bitcoin" ∨ other = "mainnet" then .ok .bitcoin
  else if other = "testnet" then .ok .testnet
  else if other = "signet" then .ok .signet
  else if other = "regtest" then .ok .regtest
  else .error (.err (.invalidConfig s!"unknown network '{other}' (bitcoin|testnet|signet|regtest)"))

/-! ### Variables -/

/-- The environment: each variable with its value. -/
abbrev Environment := List (String × String)

section

variable (env : Environment)

/-- A variable that is set to something. -/
def opt (k : String) : Option String := (env.lookup k).filter (· ≠ "")

def envOr (k default : String) : String := (opt env k).getD default

def req (i : Nat) (field : String) : Except (Stop Pkcs11Error) String :=
  let k := fkey i field
  match opt env k with
  | some value => .ok value
  | none => .error (.err (.invalidConfig s!"missing {k}"))

def parseSlot (i : Nat) : Except (Stop Pkcs11Error) SlotIdentifier :=
  match opt env (fkey i "SLOT") with
  | some label => .ok (.label label)
  | none =>
      match opt env (fkey i "SLOT_ID") with
      | some id =>
          let key := fkey i "SLOT_ID"
          match parseU64 id with
          | .ok n => .ok (.slotId n)
          | .error e => .error (.err (.invalidConfig s!"{key}: {e}"))
      | none =>
          let key := fkey i "SLOT"
          .error (.err (.invalidConfig s!"{key}: need _SLOT (label) or _SLOT_ID (numeric)"))

end

/-! ### Members -/

/-- `fleet::MemberEnv`: what a vendor is told of a member. -/
structure MemberEnv where
  vendor : String
  label : String
  libraryPath : String
  slot : SlotIdentifier
  pin : String
  derivationPath : DerivationPath
  network : Network
  keyInit : KeyInit
  deriving DecidableEq

/-- `BackendFactory`. -/
abbrev BackendFactory (K D : Type) := Unit → HsmBackend K D

/-- `BackendRegistry`: the vendors that are registered, each with its registrar. -/
abbrev BackendRegistry (K D : Type) := String → Option (MemberEnv → Except Pkcs11Error (BackendFactory K D))

/-- The member that a vendor has made a factory for. -/
def MemberEnv.member (spec : MemberEnv) (makeBackend : BackendFactory K D) : FleetMember K D where
  vendor := spec.vendor
  label := spec.label
  libraryPath := spec.libraryPath
  slot := spec.slot
  pin := spec.pin
  derivationPath := spec.derivationPath
  network := spec.network
  makeBackend := makeBackend
  keyInit := spec.keyInit

variable (registry : BackendRegistry K D) (parsePath : String → Except String DerivationPath)
  (env : Environment)

/-- The variables of one member. -/
def readSpec (network : Network) (i : Nat) (vendor : String) : Except (Stop Pkcs11Error) MemberEnv := do
  let label ← req env i "LABEL"
  let libraryPath ← req env i "LIB"
  let slot ← parseSlot env i
  let pin ← req env i "PIN"
  let path ← req env i "PATH"
  let key := fkey i "PATH"
  let derivationPath ← (parsePath path).mapError fun e => .err (.invalidConfig s!"{key}: {e}")
  let keyInit ← parseKeyInit ((opt env (fkey i "KEY")).getD "shim") i
  .ok ⟨vendor, label, libraryPath, slot, pin, derivationPath, network, keyInit⟩

/-- Have the vendor of a member make its factory. -/
def equip (spec : MemberEnv) : Except (Stop Pkcs11Error) (FleetMember K D) :=
  match registry spec.vendor with
  | none => .error (.err (.invalidConfig s!"no backend registered for vendor '{spec.vendor}'"))
  | some registrar =>
      match registrar spec with
      | .ok makeBackend => .ok (spec.member makeBackend)
      | .error e => .error (.err e)

/-- The loop, from member `i` on. -/
def membersFrom (network : Network) : Nat → Nat → List (FleetMember K D) →
    Option (Except (Stop Pkcs11Error) (List (FleetMember K D)))
  | 0, _, _ => none
  | fuel + 1, i, members =>
      match opt env (fkey i "VENDOR") with
      | none => some (.ok members)
      | some vendor =>
          match readSpec parsePath env network i vendor >>= equip registry with
          | .error e => some (.error e)
          | .ok m => membersFrom network fuel (i + 1) (members ++ [m])

/-- `Fleet::from_env`, where the loop may take `fuel` rounds. -/
def fromEnv (fuel : Nat) : Option (Except (Stop Pkcs11Error) (List (FleetMember K D))) :=
  match parseNetwork (envOr env "EMVAULT_FLEET_NETWORK" "testnet") with
  | .error e => some (.error e)
  | .ok network =>
      (membersFrom registry parsePath env network fuel 0 []).map fun result => do
        let members ← result
        if members.isEmpty then .error (.err (.invalidConfig "no EMVAULT_FLEET_0_VENDOR found"))
        else .ok members

end Fleet

end EmvaultPkcs11
