import EmvaultPkcs11.Error
import EmvaultPkcs11.Token

/-! Opening a session (config.rs, session.rs): a library is loaded, a slot is found by the label of its
token or by its number, a session is opened on it and the user is logged in. What a library answers is a
parameter, given by its path; which tokens the user is logged in on is part of the state, because a second
session on a token finds the user logged in already. -/

open Effect

namespace EmvaultPkcs11

/-- Which token a slot holds. Two slots, of one library or of two, may give access to the same token. -/
abbrev TokenId := Nat

/-- `config::SlotIdentifier`. -/
inductive SlotIdentifier where
  | label (label : String)
  | slotId (id : UInt64)
  deriving DecidableEq

/-- `impl Display for SlotIdentifier`. -/
def SlotIdentifier.display : SlotIdentifier → String
  | .label text => s!"label={text}"
  | .slotId id => s!"slot_id={id}"

/-- `config::Pkcs11Config`. -/
structure Pkcs11Config where
  libraryPath : String
  slot : SlotIdentifier
  pin : String
  derivationPath : DerivationPath
  deriving DecidableEq

/-- `char::is_whitespace`: the Unicode property `White_Space`. -/
def isWhitespace (c : Char) : Bool :=
  (0x09 ≤ c.toNat && c.toNat ≤ 0x0D) || c.toNat == 0x20 || c.toNat == 0x85 || c.toNat == 0xA0 ||
    c.toNat == 0x1680 || (0x2000 ≤ c.toNat && c.toNat ≤ 0x200A) || c.toNat == 0x2028 ||
    c.toNat == 0x2029 || c.toNat == 0x202F || c.toNat == 0x205F || c.toNat == 0x3000

/-- `str::trim`. -/
def trim (s : String) : String :=
  .ofList ((s.toList.dropWhile isWhitespace).reverse.dropWhile isWhitespace).reverse

namespace CryptokiError

def cryptokiAlreadyInitialized : CryptokiError := ⟨0x191⟩
def userAlreadyLoggedIn : CryptokiError := ⟨0x100⟩

end CryptokiError

/-- A slot with a token, and what the library answers about it. `login` is the answer while the user is
not logged in on the token. -/
structure Slot where
  id : UInt64
  tokenLabel : Except CryptokiError String
  openRwSession : Except CryptokiError Unit
  login : String → Except CryptokiError Unit
  token : TokenId

/-- A vendor's library: what it answers to `C_Initialize`, and its slots with tokens. -/
structure Library where
  startUp : Except CryptokiError Unit
  slotsWithToken : Except CryptokiError (List Slot)

/-- The first slot whose token has the label. A slot whose token cannot be asked ends the search. -/
def findLabel (label : String) : List Slot → Except Pkcs11Error Slot
  | [] => .error (.slotNotFound s!"label={label}")
  | slot :: slots => do
      let info ← slot.tokenLabel.mapError .pkcs11
      if trim info = trim label then .ok slot else findLabel label slots

def resolveSlot (library : Library) (ident : SlotIdentifier) : Except Pkcs11Error Slot := do
  let slots ← library.slotsWithToken.mapError .pkcs11
  if slots.isEmpty then
    .error (.slotNotFound s!"no slots with tokens (looked for {ident.display})")
  else
    match ident with
    | .label label => findLabel label slots
    | .slotId id =>
        match slots.find? fun slot => slot.id = id with
        | some slot => .ok slot
        | none => .error (.slotNotFound s!"slot_id={id}")

/-- The machine's tokens, and where the user is logged in. -/
structure World (K : Type) where
  machines : TokenId → Machine K
  loggedIn : TokenId → Bool

abbrev Libraries := String → Except CryptokiError Library

/-- The part of `Pkcs11Session::open` that only asks the library. -/
def locate (libraries : Libraries) (cfg : Pkcs11Config) (ident : SlotIdentifier) :
    Except Pkcs11Error Slot := do
  let library ← (libraries cfg.libraryPath).mapError (.libraryLoad cfg.libraryPath)
  match library.startUp with
  | .ok _ => .ok ()
  | .error e => if e = .cryptokiAlreadyInitialized then .ok () else .error (.initializeFailed e)
  resolveSlot library ident

/-- `Pkcs11Session::open`. It returns the token the session is on. -/
def openSession {K : Type} (libraries : Libraries) (cfg : Pkcs11Config) (ident : SlotIdentifier)
    (userPin : String) : EStateM (Stop Pkcs11Error) (World K) TokenId := do
  let slot ← orErr (locate libraries cfg ident)
  orErr (slot.openRwSession.mapError .pkcs11)
  if (← get).loggedIn slot.token then pure slot.token
  else
    match slot.login userPin with
    | .ok _ => do
        modify fun w => { w with loggedIn := Function.update w.loggedIn slot.token true }
        pure slot.token
    | .error e =>
        if e = .userAlreadyLoggedIn then pure slot.token else throw (.err (.loginFailed e))

end EmvaultPkcs11
