import EmvaultPkcs11.Error

/-! Key lookup and removal by label, and the lenient reading of `CKA_EC_POINT` (key_ops.rs). -/

namespace EmvaultPkcs11

/-- The namespace of every object label the crate makes. -/
def PREFIX : String := "emvault.v1"

def SECP256K1_OID_DER : Bytes := [0x06, 0x05, 0x2B, 0x81, 0x04, 0x00, 0x0A]

def PRIV_SUFFIX : String := "priv"
def PUB_SUFFIX : String := "pub"

structure LoadedKey where
  privateKey : ObjectHandle
  deriving DecidableEq

def privLabel (label : String) : String := s!"{PREFIX}.{label}.{PRIV_SUFFIX}"

def pubLabel (label : String) : String := s!"{PREFIX}.{label}.{PUB_SUFFIX}"

variable {K D : Type}

def findKeyByLabel (label : String) : TokenProgram K D Pkcs11Error (Option LoadedKey) := do
  let privHandles ← Session.findObjects .pkcs11 [.objectClass .privateKey, .label (privLabel label)]
  match privHandles with
  | [] => pure none
  | [handle] => pure (some ⟨handle⟩)
  | _ => throw (.err (.ambiguous (privLabel label) privHandles.length))

/-- Destroy objects one after the other, stopping at the first failure. -/
def destroyAll : List ObjectHandle → TokenProgram K D Pkcs11Error Unit
  | [] => pure ()
  | handle :: rest => do
      Session.destroyObject .pkcs11 handle
      destroyAll rest

/-- One round of the loop of `deleteKey`. -/
def deleteMatching (label : String) (kind : String × ObjectClass) :
    TokenProgram K D Pkcs11Error Unit := do
  let handles ← Session.findObjects .pkcs11
    [.objectClass kind.2, .label s!"{PREFIX}.{label}.{kind.1}"]
  destroyAll handles

def deleteKey (label : String) : TokenProgram K D Pkcs11Error Unit := do
  deleteMatching label (PRIV_SUFFIX, .privateKey)
  deleteMatching label (PUB_SUFFIX, .publicKey)

/-- Accepts both a raw point and one wrapped in a DER OCTET STRING. -/
def derDecodeOctetStringLenient (input : Bytes) : Except String Bytes :=
  if input.isEmpty then .error "empty EC point"
  else if input.getD 0 0 = 0x04 ∧ 2 ≤ input.length then do
    let (headerLen, contentLen) ←
      if input.getD 1 0 < 0x80 then .ok (2, (input.getD 1 0).toNat)
      else if input.getD 1 0 = 0x81 ∧ 3 ≤ input.length then .ok (3, (input.getD 2 0).toNat)
      else if input.getD 1 0 = 0x82 ∧ 4 ≤ input.length then
        .ok (4, (input.getD 2 0).toNat <<< 8 ||| (input.getD 3 0).toNat)
      else .error "malformed DER length on EC point"
    if input.length < headerLen + contentLen then
      .error "DER OCTET STRING truncated on EC point"
    else .ok ((input.drop headerLen).take contentLen)
  else .ok input

/-- Wraps a point in a DER OCTET STRING. A length of more than two bytes panics. -/
def derEncodeOctetString {ε : Type} (content : Bytes) : Except (Effect.Stop ε) Bytes :=
  if content.length < 0x80 then .ok (0x04 :: UInt8.ofNat content.length :: content)
  else if content.length < 0x100 then .ok (0x04 :: 0x81 :: UInt8.ofNat content.length :: content)
  else if content.length >>> 8 < 0x100 then
    .ok (0x04 :: 0x82 :: UInt8.ofNat (content.length >>> 8) :: UInt8.ofNat (content.length &&& 0xff) :: content)
  else .error (.panic "len >> 8 < 0x100 for OCTET STRING")

end EmvaultPkcs11
