import EmvaultPkcs11.KeyOps
import EmvaultPkcs11.Psbt

/-! The transaction policy and the signature-rate counter, and how both are kept on the token as
`CKO_DATA` objects (policy.rs). The two records are stored in the same way, so storing is written once
and each record is an instance of it. -/

open Effect

namespace EmvaultPkcs11

structure MinimalHsmPolicy where
  perTransactionLimit : Option Amount
  maxSignaturesPerHour : Option UInt32
  destinationWhitelist : Option (List Address)
  deriving DecidableEq

def MinimalHsmPolicy.permissive : MinimalHsmPolicy := ⟨none, none, none⟩

/-- Unix-second timestamps of recent signing operations, oldest first. -/
structure SigRateCounter where
  timestamps : List Nat
  deriving DecidableEq

def SigRateCounter.default : SigRateCounter := ⟨[]⟩

/-- `serde_json` on the two stored records. -/
structure Serde where
  policyToVec : MinimalHsmPolicy → Except String Bytes
  policyFromSlice : Bytes → Except String MinimalHsmPolicy
  counterToVec : SigRateCounter → Except String Bytes
  counterFromSlice : Bytes → Except String SigRateCounter

variable {K D : Type}

/-! ### Checking a transaction -/

/-- `impl Add for Amount`: a sum above 64 bits panics. -/
def Amount.add {ε : Type} (a b : Amount) : Except (Stop ε) Amount :=
  if a.toNat + b.toNat < 2 ^ 64 then .ok (a + b) else .error (.panic "Amount addition error")

def totalOut {ε : Type} (outputs : List TxOut) : Except (Stop ε) Amount :=
  outputs.foldlM (fun total output => Amount.add total output.value) 0

/-- `Address::require_network` followed by `script_pubkey`. -/
def Address.scriptOn (crates : Crates D) (network : Network) (address : Address) :
    Except (Stop Pkcs11Error) Script :=
  if network ∈ address.networks then .ok address.scriptPubkey
  else .error (.err (.bitcoin
    (s!"whitelist address not on network {crates.foreignText (.network network)}: " ++
      crates.foreignText (.networkMismatch address network))))

/-- The limit rule of `check_against_psbt`. -/
def checkLimit (crates : Crates D) (limit : Amount) (outputs : List TxOut) :
    Except (Stop Pkcs11Error) Unit := do
  let totalOut ← totalOut outputs
  if totalOut > limit then
    .error (.err (.policyViolation
      (s!"PSBT output total {crates.foreignText (.amount totalOut)} exceeds per-transaction limit " ++
        crates.foreignText (.amount limit))))
  else .ok ()

/-- The whitelist rule of `check_against_psbt`. -/
def checkWhitelist (crates : Crates D) (network : Network) (whitelist : List Address)
    (outputs : List TxOut) : Except (Stop Pkcs11Error) Unit := do
  let allowedScripts ← whitelist.mapM (Address.scriptOn crates network)
  outputs.forM fun output =>
    if output.scriptPubkey ∈ allowedScripts then .ok ()
    else .error (.err (.policyViolation
      s!"output script {crates.foreignText (.scriptDebug output.scriptPubkey)} not in destination whitelist"))

def MinimalHsmPolicy.checkAgainstPsbt (crates : Crates D) (policy : MinimalHsmPolicy) (psbt : Psbt K)
    (network : Network) : Except (Stop Pkcs11Error) Unit := do
  match policy.perTransactionLimit with
  | some limit => checkLimit crates limit psbt.unsignedTx.output
  | none => .ok ()
  match policy.destinationWhitelist with
  | some whitelist => checkWhitelist crates network whitelist psbt.unsignedTx.output
  | none => .ok ()

/-! ### The counter -/

/-- The counter without the entries older than an hour. -/
def SigRateCounter.prune (counter : SigRateCounter) (now : Nat) : SigRateCounter :=
  ⟨counter.timestamps.filter fun t => now - 3600 ≤ t⟩

/-- Prune the counter and count what is left; a count above 32 bits panics. -/
def SigRateCounter.pruneAndCount {ε : Type} (counter : SigRateCounter) (now : Nat) :
    Except (Stop ε) (SigRateCounter × Nat) :=
  let pruned := counter.prune now
  if pruned.timestamps.length < 2 ^ 32 then .ok (pruned, pruned.timestamps.length)
  else .error (.panic "trailing-hour signature count fits u32")

def SigRateCounter.record (counter : SigRateCounter) (now : Nat) : SigRateCounter :=
  ⟨counter.timestamps ++ [now]⟩

/-! ### Persistence -/

def POLICY_PREFIX : String := "emvault.v1"

def policyLabel (label : String) : String := s!"{POLICY_PREFIX}.{label}.policy"

def sigrateLabel (label : String) : String := s!"{POLICY_PREFIX}.{label}.sigrate"

/-- The template both records are searched by. -/
def recordQuery (objectLabel : String) : List Attribute :=
  [.objectClass .data, .label objectLabel]

/-- The template both records are created with. -/
def recordTemplate (objectLabel : String) (bytes : Bytes) : List Attribute :=
  [.objectClass .data, .token true, .isPrivate true, .label objectLabel,
    .application "emvault-pkcs11", .value bytes]

/-- What a record read back from its attributes is. -/
def decodeRecord {R : Type} (objectLabel : String) (fromSlice : Bytes → Except String R)
    (attributes : List Attribute) : Except (Stop Pkcs11Error) R :=
  match attributes.findSome? Attribute.value? with
  | none => .error (.err (.objectNotFound objectLabel))
  | some bytes =>
      match fromSlice bytes with
      | .ok record => .ok record
      | .error e => .error (.err (.serialization e))

/-- Read a record: the first object that matches, or `absent` if none does. -/
def loadRecord {R : Type} (objectLabel : String) (absent : R) (fromSlice : Bytes → Except String R) :
    TokenProgram K D Pkcs11Error R := do
  let handles ← Session.findObjects .pkcs11 (recordQuery objectLabel)
  match handles with
  | [] => pure absent
  | handle :: _ =>
      let attributes ← Session.getAttributes .pkcs11 handle [.value]
      Program.ofExcept (decodeRecord objectLabel fromSlice attributes)

/-- Store a record in place of any earlier one. -/
def saveRecord {R : Type} (objectLabel : String) (toVec : R → Except String Bytes) (record : R) :
    TokenProgram K D Pkcs11Error ObjectHandle := do
  let existing ← Session.findObjects .pkcs11 (recordQuery objectLabel)
  destroyAll existing
  match toVec record with
  | .error e => throw (.err (.serialization e))
  | .ok bytes => Session.createObject .pkcs11 (recordTemplate objectLabel bytes)

def loadPolicy (serde : Serde) (label : String) : TokenProgram K D Pkcs11Error MinimalHsmPolicy :=
  loadRecord (policyLabel label) .permissive serde.policyFromSlice

def savePolicy (serde : Serde) (label : String) (policy : MinimalHsmPolicy) :
    TokenProgram K D Pkcs11Error ObjectHandle :=
  saveRecord (policyLabel label) serde.policyToVec policy

def loadSigrate (serde : Serde) (label : String) : TokenProgram K D Pkcs11Error SigRateCounter :=
  loadRecord (sigrateLabel label) .default serde.counterFromSlice

def saveSigrate (serde : Serde) (label : String) (counter : SigRateCounter) :
    TokenProgram K D Pkcs11Error Unit := do
  let _ ← saveRecord (sigrateLabel label) serde.counterToVec counter
  pure ()

/-- The text a refused signature-rate check reports. -/
def sigrateCeiling (count : Nat) (max : UInt32) : String :=
  s!"sig-rate ceiling reached: {count} signatures in trailing hour, limit {max}"

/-- The check and the update under a ceiling. It returns the timestamp it recorded, which
`checkAndRecordSigrate` drops. -/
def recordSigrate (serde : Serde) (label : String) (max : UInt32) :
    TokenProgram K D Pkcs11Error Nat := do
  let counter ← loadSigrate serde label
  let now ← Session.now
  let (counter, count) ← Program.ofExcept (counter.pruneAndCount now)
  if count ≥ max.toNat then
    throw (.err (.policyViolation (sigrateCeiling count max)))
  else
    saveSigrate serde label (counter.record now)
    pure now

def checkAndRecordSigrate (serde : Serde) (label : String) (policy : MinimalHsmPolicy) :
    TokenProgram K D Pkcs11Error Unit :=
  match policy.maxSignaturesPerHour with
  | none => pure ()
  | some max => do
      let _ ← recordSigrate serde label max
      pure ()

end EmvaultPkcs11
