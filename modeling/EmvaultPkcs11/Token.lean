import EmvaultPkcs11.Bitcoin
import EmvaultPkcs11.LibraryProgram

/-! A PKCS#11 token behind an authenticated session. The token keeps every object with exactly the
attributes of the template it was made from, answers a search in the order it holds its objects, and
never gives a live handle twice. What the vendor's library computes (derivation, the attributes of a
key, raw signatures), which calls it makes fail and what the host's clock shows at each call are
parameters: the number of calls made so far is part of the state, so a fault schedule or a clock is a
function of it. -/

open Effect

namespace EmvaultPkcs11

abbrev ObjectHandle := Nat

/-- `cryptoki::error::Error`. -/
structure CryptokiError where
  code : Nat
  deriving DecidableEq

namespace CryptokiError

def objectHandleInvalid : CryptokiError := ⟨0x82⟩
def keyHandleInvalid : CryptokiError := ⟨0x60⟩

end CryptokiError

inductive ObjectClass where
  | data | privateKey | publicKey | secretKey
  deriving DecidableEq

inductive KeyType where
  | ec | genericSecret
  deriving DecidableEq

inductive AttributeType where
  | objectClass | keyType | token | isPrivate | sensitive | extractable | sign | derive
  | label | ecParams | ecPoint | value | application
  | vendorDefined (id : Nat)
  deriving DecidableEq

/-- `cryptoki::object::Attribute`. A label is written as the text its UTF-8 bytes encode; the
encoding is injective, so matching texts is matching bytes. -/
inductive Attribute where
  | objectClass (value : ObjectClass)
  | keyType (value : KeyType)
  | token (value : Bool)
  | isPrivate (value : Bool)
  | sensitive (value : Bool)
  | extractable (value : Bool)
  | sign (value : Bool)
  | derive (value : Bool)
  | label (value : String)
  | ecParams (value : Bytes)
  | ecPoint (value : Bytes)
  | value (value : Bytes)
  | application (value : String)
  | vendorDefined (id : Nat) (value : Bytes)
  deriving DecidableEq

def Attribute.type : Attribute → AttributeType
  | .objectClass _ => .objectClass
  | .keyType _ => .keyType
  | .token _ => .token
  | .isPrivate _ => .isPrivate
  | .sensitive _ => .sensitive
  | .extractable _ => .extractable
  | .sign _ => .sign
  | .derive _ => .derive
  | .label _ => .label
  | .ecParams _ => .ecParams
  | .ecPoint _ => .ecPoint
  | .value _ => .value
  | .application _ => .application
  | .vendorDefined id _ => .vendorDefined id

/-- The `CKA_VALUE` bytes of an attribute, if it is one. -/
def Attribute.value? : Attribute → Option Bytes
  | .value bytes => some bytes
  | _ => none

/-- The `CKA_EC_POINT` bytes of an attribute, if it is one. -/
def Attribute.ecPoint? : Attribute → Option Bytes
  | .ecPoint bytes => some bytes
  | _ => none

abbrev MechanismType := Nat

inductive Mechanism where
  | vendorDefined (type : MechanismType) (parameter : Bytes)
  deriving DecidableEq

/-- An object on the token. `K` is the secret a key object holds inside the token. -/
structure Object (K : Type) where
  attributes : List Attribute
  key : Option K
  deriving DecidableEq

variable {K D : Type}

/-- An object matches a template when it has every attribute of it. -/
def Object.matches (template : List Attribute) (object : Object K) : Bool :=
  template.all fun wanted => wanted ∈ object.attributes

/-- The raw output of `C_Sign`, with the key that made it. No code reads the key; it records which
object the signing call was given. -/
structure RawSignature (K : Type) where
  bytes : Bytes
  madeWith : K
  deriving DecidableEq

/-- The vendor's PKCS#11 library and the host's clock. `derive`, `keyAttributes` and `ecdsa` are what
the library computes; `fault n` makes call number `n` fail; `clock n` is the time in whole seconds
since the epoch that the host shows when call number `n` is made. -/
structure Hsm (K D : Type) where
  derive : Mechanism → Object K → Except CryptokiError K
  keyAttributes : K → List Attribute
  ecdsa : K → D → Bytes
  fault : Nat → Option CryptokiError
  clock : Nat → Nat

/-- A token on which no call fails for a reason outside the request. -/
def Hsm.FaultFree (hsm : Hsm K D) : Prop := ∀ n, hsm.fault n = none

/-- The token and the number of calls made on it so far. -/
structure Machine (K : Type) where
  objects : List (ObjectHandle × Object K)
  nextHandle : ObjectHandle
  calls : Nat
  handles_lt : ∀ entry ∈ objects, entry.1 < nextHandle
  handles_nodup : (objects.map Prod.fst).Nodup

namespace Machine

@[ext] theorem ext {m m' : Machine K} (hobjects : m.objects = m'.objects)
    (hnext : m.nextHandle = m'.nextHandle) (hcalls : m.calls = m'.calls) : m = m' := by
  cases m; cases m'; simp_all

/-- A token without objects. -/
def empty : Machine K := ⟨[], 0, 0, by simp, by simp⟩

/-- The live object behind a handle. -/
def object? (m : Machine K) (handle : ObjectHandle) : Option (Object K) :=
  m.objects.lookup handle

/-- The handles of the objects that match a template, in the order the token holds them. -/
def search (m : Machine K) (template : List Attribute) : List ObjectHandle :=
  (m.objects.filter fun entry => entry.2.matches template).map Prod.fst

/-- One more call has been made. -/
def tick (m : Machine K) : Machine K := { m with calls := m.calls + 1 }

/-- Store a new object under a fresh handle. -/
def create (m : Machine K) (object : Object K) : Machine K where
  objects := m.objects ++ [(m.nextHandle, object)]
  nextHandle := m.nextHandle + 1
  calls := m.calls
  handles_lt := by
    intro entry hentry
    rcases List.mem_append.mp hentry with h | h
    · exact Nat.lt_succ_of_lt (m.handles_lt entry h)
    · rw [List.mem_singleton.mp h]
      exact Nat.lt_succ_self _
  handles_nodup := by
    rw [List.map_append, List.nodup_append]
    refine ⟨m.handles_nodup, by simp, ?_⟩
    rintro handle hhandle fresh hfresh rfl
    obtain ⟨entry, hentry, rfl⟩ := List.mem_map.mp hhandle
    simp only [List.map_cons, List.map_nil, List.mem_singleton] at hfresh
    exact Nat.lt_irrefl _ (hfresh ▸ m.handles_lt entry hentry)

/-- Keep the objects that satisfy `keep`. -/
def filter (m : Machine K) (keep : ObjectHandle × Object K → Bool) : Machine K where
  objects := m.objects.filter keep
  nextHandle := m.nextHandle
  calls := m.calls
  handles_lt := fun entry hentry => m.handles_lt entry (List.mem_of_mem_filter hentry)
  handles_nodup := m.handles_nodup.sublist (List.filter_sublist.map Prod.fst)

/-- Remove the object behind a handle. -/
def destroy (m : Machine K) (handle : ObjectHandle) : Machine K :=
  m.filter fun entry => entry.1 != handle

/-- End the session and open a new one: only objects with `CKA_TOKEN = true` are kept. -/
def closeSession (m : Machine K) : Machine K :=
  m.filter fun entry => .token true ∈ entry.2.attributes

end Machine

/-- The calls of `cryptoki::session::Session` that the crate makes, and the reading of the clock. -/
inductive Call (D : Type) where
  | findObjects (template : List Attribute)
  | getAttributes (handle : ObjectHandle) (types : List AttributeType)
  | destroyObject (handle : ObjectHandle)
  | createObject (template : List Attribute)
  | deriveKey (mechanism : Mechanism) (base : ObjectHandle) (template : List Attribute)
  | sign (key : ObjectHandle) (digest : D)
  | now

/-- What each call answers. Only the clock cannot fail. -/
abbrev Reply (K : Type) : Call D → Type
  | .findObjects _ => Except CryptokiError (List ObjectHandle)
  | .getAttributes _ _ => Except CryptokiError (List Attribute)
  | .destroyObject _ => Except CryptokiError Unit
  | .createObject _ => Except CryptokiError ObjectHandle
  | .deriveKey _ _ _ => Except CryptokiError ObjectHandle
  | .sign _ _ => Except CryptokiError (RawSignature K)
  | .now => Nat

/-- The interface of an authenticated session. -/
abbrev Session (K D : Type) : Program.Interface := ⟨Call D, Reply K⟩

namespace Hsm

variable (hsm : Hsm K D)

/-- The attributes a token reports for an object: those of its template, and those the library
computes from the key it holds. -/
def attributesOf (object : Object K) : List Attribute :=
  object.attributes ++ (object.key.elim [] hsm.keyAttributes)

/-- The effect of a call that the token does not refuse. -/
def serve (m : Machine K) : (call : Call D) → Reply K call × Machine K
  | .findObjects template => (.ok (m.search template), m)
  | .getAttributes handle types =>
      match m.object? handle with
      | none => (.error .objectHandleInvalid, m)
      | some object => (.ok ((hsm.attributesOf object).filter fun a => a.type ∈ types), m)
  | .destroyObject handle =>
      match m.object? handle with
      | none => (.error .objectHandleInvalid, m)
      | some _ => (.ok (), m.destroy handle)
  | .createObject template => (.ok m.nextHandle, m.create ⟨template, none⟩)
  | .deriveKey mechanism base template =>
      match m.object? base with
      | none => (.error .keyHandleInvalid, m)
      | some object =>
          match hsm.derive mechanism object with
          | .error e => (.error e, m)
          | .ok key => (.ok m.nextHandle, m.create ⟨template, some key⟩)
  | .sign handle digest =>
      match m.object? handle with
      | none => (.error .keyHandleInvalid, m)
      | some object =>
          match object.key with
          | none => (.error .keyHandleInvalid, m)
          | some key => (.ok ⟨hsm.ecdsa key digest, key⟩, m)
  | .now => (hsm.clock m.calls, m)

/-- The answer of a call that the fault schedule makes fail. -/
def refuse (m : Machine K) (e : CryptokiError) : (call : Call D) → Reply K call
  | .findObjects _ => .error e
  | .getAttributes _ _ => .error e
  | .destroyObject _ => .error e
  | .createObject _ => .error e
  | .deriveKey _ _ _ => .error e
  | .sign _ _ => .error e
  | .now => hsm.clock m.calls

/-- Make one call: a call that fails leaves the objects as they are, and every call counts. -/
def exec (call : Call D) (m : Machine K) : Reply K call × Machine K :=
  match hsm.fault m.calls with
  | some e => (hsm.refuse m e call, m.tick)
  | none => ((hsm.serve m call).1, (hsm.serve m call).2.tick)

end Hsm

/-- A program over the session that stops with an error of type `ε` or a panic. -/
abbrev TokenProgram (K D ε α : Type) := Program (Session K D) (Stop ε) α

/-- Go on with the answer of a fallible call, or stop with its error as `wrap` converts it. -/
def orStop {ε α : Type} (wrap : CryptokiError → ε) : Except CryptokiError α → TokenProgram K D ε α
  | .ok a => .done a
  | .error e => .stop (.err (wrap e))

namespace Session

variable {ε : Type} (wrap : CryptokiError → ε)

/-- Make a call that may fail, and go on with its result. -/
def request {α : Type} (call : Call D) (result : Reply K call → Except CryptokiError α) :
    TokenProgram K D ε α :=
  .call (I := Session K D) call fun reply => orStop wrap (result reply)

def findObjects (template : List Attribute) : TokenProgram K D ε (List ObjectHandle) :=
  request wrap (.findObjects template) id

def getAttributes (handle : ObjectHandle) (types : List AttributeType) :
    TokenProgram K D ε (List Attribute) :=
  request wrap (.getAttributes handle types) id

def destroyObject (handle : ObjectHandle) : TokenProgram K D ε Unit :=
  request wrap (.destroyObject handle) id

/-- `let _ = session.destroy_object(handle)`: a failure to destroy is ignored. -/
def tryDestroyObject (handle : ObjectHandle) : TokenProgram K D ε Unit :=
  .call (I := Session K D) (.destroyObject handle) fun _ => .done ()

def createObject (template : List Attribute) : TokenProgram K D ε ObjectHandle :=
  request wrap (.createObject template) id

def deriveKey (mechanism : Mechanism) (base : ObjectHandle) (template : List Attribute) :
    TokenProgram K D ε ObjectHandle :=
  request wrap (.deriveKey mechanism base template) id

/-- `let result = session.derive_key(..)`: the result is kept, to be looked at later. -/
def tryDeriveKey (mechanism : Mechanism) (base : ObjectHandle) (template : List Attribute) :
    TokenProgram K D ε (Except CryptokiError ObjectHandle) :=
  .call (I := Session K D) (.deriveKey mechanism base template) .done

def sign (key : ObjectHandle) (digest : D) : TokenProgram K D ε (RawSignature K) :=
  request wrap (.sign key digest) id

/-- `SystemTime::now().duration_since(UNIX_EPOCH).map_or(0, |d| d.as_secs())`. -/
def now : TokenProgram K D ε Nat :=
  .call (I := Session K D) .now .done

end Session

end EmvaultPkcs11
