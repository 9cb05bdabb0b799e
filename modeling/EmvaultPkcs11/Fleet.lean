import EmvaultPkcs11.Signer
import EmvaultPkcs11.SlotSession

/-! A fleet of cosigners (fleet.rs): which lists of members are accepted, and how a signer is built for
each member in turn. A signer owns its session, so where building stops with an error the sessions opened
until then are closed. -/

open Effect

namespace EmvaultPkcs11

/-- `fleet::KeyInit`. -/
inductive KeyInit where
  | deriveFromSeed (seed : Bytes)
  | load
  deriving DecidableEq

/-- `fleet::FleetMember`. -/
structure FleetMember (K D : Type) where
  vendor : String
  label : String
  libraryPath : String
  slot : SlotIdentifier
  pin : String
  derivationPath : DerivationPath
  network : Network
  makeBackend : Unit → HsmBackend K D
  keyInit : KeyInit

variable {K D : Type}

/-- The sessions opened since `w₀` are closed: of the objects made since then only those with
`CKA_TOKEN = true` stay, and the user is logged in where he was before. -/
def World.closeSince (w₀ w : World K) : World K where
  machines token := (w.machines token).filter fun entry =>
    entry.1 < (w₀.machines token).nextHandle || .token true ∈ entry.2.attributes
  loggedIn := w₀.loggedIn

/-- Where `x` stops early the sessions it has opened are dropped, and with that closed. -/
def closingOnError {ε α : Type} (x : EStateM ε (World K) α) : EStateM ε (World K) α := fun w =>
  match x.run w with
  | .ok a w' => .ok a w'
  | .error e w' => .error e (w.closeSince w')

@[simp] theorem wp_closingOnError {ε α : Type} (x : EStateM ε (World K) α) (Q : α → World K → Prop)
    (E : ε → World K → Prop) (w : World K) :
    wp (closingOnError x) Q E w ↔ wp x Q (fun e w' => E e (w.closeSince w')) w := by
  simp only [wp, closingOnError, EStateM.run]
  cases x w <;> rfl

namespace Fleet

/-- What `validate` compares. -/
def memberId (m : FleetMember K D) : String :=
  s!"{m.vendor}|{m.libraryPath}|{m.slot.display}|{displayPath m.derivationPath}"

/-- The first pair of members, in the order of the two loops, that have the same id. -/
def collision (ids : List String) : Option (Nat × Nat) :=
  (List.range ids.length).findSome? fun i =>
    ((List.range' (i + 1) (ids.length - (i + 1))).find? fun j => ids[i]? = ids[j]?).map fun j => (i, j)

def validate (members : List (FleetMember K D)) : Except Pkcs11Error Unit :=
  match collision (members.map memberId) with
  | some (i, j) =>
      .error (.invalidConfig s!"degenerate fleet: cosigners {i} and {j} resolve to the same key")
  | none => .ok ()

variable (libraries : Libraries) (hsm : TokenId → Hsm K D)

/-- Run a program in a session on a token. -/
def onTokenOf {α : Type} (token : TokenId) (p : TokenProgram K D Pkcs11Error α) :
    EStateM (Stop Pkcs11Error) (World K) α :=
  onPart (fun w => w.machines token)
    (fun m w => { w with machines := Function.update w.machines token m })
    (Program.run (hsm token).exec p)

/-- The signer of a member, with the token its session is on. -/
def buildMember (m : FleetMember K D) :
    EStateM (Stop Pkcs11Error) (World K) (TokenId × Pkcs11Signer K D) := closingOnError do
  let cfg : Pkcs11Config := ⟨m.libraryPath, m.slot, m.pin, m.derivationPath⟩
  let token ← openSession libraries cfg m.slot m.pin
  match m.keyInit with
  | .deriveFromSeed seed => do
      let signer ← onTokenOf hsm token
        (Pkcs11Signer.deriveFromSeed m.label m.derivationPath m.network (m.makeBackend ()) seed)
      pure (token, signer)
  | .load => do
      let signer ← onTokenOf hsm token
        (Pkcs11Signer.load m.label m.derivationPath m.network (m.makeBackend ()))
      pure (token, signer)

def buildSigners (members : List (FleetMember K D)) :
    EStateM (Stop Pkcs11Error) (World K) (List (TokenId × Pkcs11Signer K D)) := closingOnError do
  orErr (validate members)
  members.mapM (buildMember libraries hsm)

end Fleet

end EmvaultPkcs11
