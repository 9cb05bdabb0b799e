import EmvaultPkcs11.Ceremony
import EmvaultPkcs11.ChildIndex
import EmvaultPkcs11.RateCounter

/-! A vendor that meets every assumption the results make: its keys are a seed with a path, so
different paths give different keys, and its digest is the message itself. It shows that the
assumptions can be met together, and it is the token on which the examples of the other modules run. -/

open Effect

namespace EmvaultPkcs11

namespace IdealVendor

/-- A key: the seed of its master and the path below the master. -/
structure Key where
  seed : Bytes
  path : DerivationPath
  deriving DecidableEq

def child (key : Key) (c : ChildNumber) : Key := { key with path := key.path ++ [c] }

/-- A digest that is the message it is the digest of. -/
inductive Digest where
  | bitcoin (message : SighashMessage)
  | elements (tx : Bytes) (inputIdx : Nat) (script : Script) (sighashType : EcdsaSighashType)
  deriving DecidableEq

/-- The bytes of a key: the words of its path and then its seed. -/
def Key.bytes (key : Key) : Bytes := key.path.flatMap (fun c => toLeBytes c.indexWord) ++ key.seed

/-- The number a byte string denotes, with no two byte strings denoting the same. -/
def number : Bytes → Nat
  | [] => 0
  | b :: bytes => number bytes * 257 + (b.toNat + 1)

def publicKey (key : Key) : PublicKey := number key.bytes

def derive (ownSeed : Bytes) : Mechanism → Object Key → Except CryptokiError Key
  | .vendorDefined 1 seed, _ => .ok ⟨if seed = List.replicate 64 0 then ownSeed else seed, []⟩
  | .vendorDefined 2 parameter, object =>
      match object.key, fromLeBytes parameter with
      | some key, some word => .ok (child key (AttributeDerivation.childNumberOf word))
      | _, _ => .error .keyHandleInvalid
  | _, _ => .error .keyHandleInvalid

def keyAttributes (key : Key) : List Attribute :=
  [.ecPoint (0x02 :: key.bytes), .vendorDefined 0x101 (List.replicate 32 0),
    .vendorDefined 0x102 [UInt8.ofNat key.path.length], .vendorDefined 0x103 (List.replicate 4 0),
    .vendorDefined 0x104 (toLeBytes ((key.path.getLast?.map ChildNumber.indexWord).getD 0))]

/-- A computation has come to its end. -/
def completes {ε σ α : Type} : EStateM.Result ε σ α → Bool
  | .ok _ _ => true
  | .error _ _ => false

def signatureBytes : Bytes := List.replicate 64 0

def hsm (ownSeed : Bytes) (fault : Nat → Option CryptokiError) (clock : Nat → Nat) : Hsm Key Digest where
  derive := derive ownSeed
  keyAttributes := keyAttributes
  ecdsa _ _ := signatureBytes
  fault := fault
  clock := clock

def crates : Crates Digest where
  digest := .bitcoin
  fromCompact := .ok
  normalizeS bytes := bytes
  publicKeyFromSlice
    | 0x02 :: bytes => .ok (number bytes)
    | _ => .error "malformed public key"
  fingerprintOf key := toLeBytes (UInt32.ofNat key)
  foreignText _ := ""
  cryptokiText _ := ""

def elements : ElementsCrate Key Digest Bytes where
  extractTx pset := .ok pset.rest
  segwitv0Sighash tx inputIdx script _ sighashType := .elements tx inputIdx script sighashType
  serializeDer bytes := bytes

/-- A Schnorr signer that signs through the session. -/
def taprootSigner : TaprootSigner Key Digest where
  signSchnorr handle _ _ digest := do
    let raw ← Session.sign .pkcs11 handle digest
    pure ⟨raw.bytes, raw.madeWith⟩

def recipe : AttributeDerivation Key Digest where
  backendName := "ideal"
  masterDeriveMechanism := 1
  childDeriveMechanism := 2
  chainCodeAttribute := .vendorDefined 0x101
  depthAttribute := .vendorDefined 0x102
  parentFingerprintAttribute := .vendorDefined 0x103
  childIndexAttribute := .vendorDefined 0x104
  taprootSigner := some taprootSigner

/-- Numbers as strokes, each followed by a stop. -/
def strokes (numbers : List Nat) : Bytes := numbers.flatMap fun n => List.replicate n 1 ++ [0]

/-- Read strokes, `n` of which have been seen since the last stop. -/
def readStrokes (n : Nat) : Bytes → List Nat
  | [] => []
  | b :: bytes => if b = 0 then n :: readStrokes 0 bytes else readStrokes (n + 1) bytes

/-- Records written as strokes. A policy is written with its limit and its ceiling, each one up. -/
def serde : Serde where
  policyToVec
    | ⟨limit, ceiling, none⟩ =>
        .ok (strokes [limit.elim 0 fun l => l.toNat + 1, ceiling.elim 0 fun c => c.toNat + 1])
    | ⟨_, _, some _⟩ => .error "no encoding of addresses"
  policyFromSlice bytes :=
    match readStrokes 0 bytes with
    | [limit, ceiling] => .ok
        ⟨if limit = 0 then none else some (UInt64.ofNat (limit - 1)),
          if ceiling = 0 then none else some (UInt32.ofNat (ceiling - 1)), none⟩
    | _ => .error "not a policy"
  counterToVec counter := .ok (strokes counter.timestamps)
  counterFromSlice bytes := .ok ⟨readStrokes 0 bytes⟩

/-! ### A signer and what it is asked to sign -/

/-- A token on which no call fails, beside a clock that shows the number of calls made. -/
def token : Hsm Key Digest := hsm [7] (fun _ => none) fun n => n

def master : Key := ⟨[7], []⟩

def fingerprint : Fingerprint := crates.fingerprintOf (publicKey master)

/-- The key ceremony for a path, with the seed left to the token. -/
def ceremony (path : DerivationPath) :
    EStateM (Stop Pkcs11Error) (Machine Key) (Pkcs11Signer Key Digest) :=
  Program.run token.exec
    (Pkcs11Signer.deriveFromSeed "a" path .bitcoin (recipe.toHsmBackend crates) [])

/-- The token after the ceremony. -/
def machine (path : DerivationPath) : Machine Key := after (ceremony path) .empty

/-- The signer of the ceremony. The token's first two handles are the seed's and the master's. -/
def signer (path : DerivationPath) : Pkcs11Signer Key Digest :=
  .fromLoaded "a" ⟨1 + path.length⟩
    { network := .main
      depth := UInt8.ofNat path.length
      parentFingerprint := List.replicate 4 0
      childNumber := path.getLast?.getD (.normal 0)
      publicKey := publicKey ⟨[7], path⟩
      chainCode := List.replicate 32 0 }
    fingerprint path .bitcoin (recipe.toHsmBackend crates)

/-- A P2WSH input with an origin entry for the key at a path below the master. -/
def wshInput (path : DerivationPath) (sighashType : Option UInt32) : Input Key where
  witnessUtxo := some ⟨5, []⟩
  witnessScript := some []
  sighashType := sighashType
  bip32Derivation := (∅ : BTreeMap PublicKey KeySource).insert (publicKey ⟨[7], path⟩) (fingerprint, path)
  partialSigs := ∅
  tapInternalKey := none
  tapScripts := ∅
  tapKeyOrigins := ∅
  tapScriptSigs := ∅

/-- A PSBT with the given inputs and outputs. -/
def psbtOf (inputs : List (Input Key)) (outputs : List TxOut) : Psbt Key where
  unsignedTx := ⟨2, 0, (List.range inputs.length).map fun i => ⟨⟨[], i⟩, 0⟩, outputs⟩
  inputs := inputs

/-- A PSET input with an origin entry for the key at a path below the master. -/
def psetInput (path : DerivationPath) : PsetInput Key where
  witnessUtxo := some ⟨.explicit 5⟩
  witnessScript := some []
  sighashType := none
  bip32Derivation := (∅ : BTreeMap BitcoinPublicKey KeySource).insert (.new (publicKey ⟨[7], path⟩))
    (fingerprint, path)
  partialSigs := ∅

/-- The token with a policy stored for the signer. -/
def withPolicy (policy : MinimalHsmPolicy) (m : Machine Key) : Machine Key :=
  match serde.policyToVec policy with
  | .ok bytes => m.create ⟨recordTemplate (policyLabel "a") bytes, none⟩
  | .error _ => m

/-! ### Keys and public keys -/

theorem number_injective : Function.Injective number := by
  intro a
  induction a with
  | nil =>
      intro b h
      cases b with
      | nil => rfl
      | cons y b =>
          simp only [number] at h
          omega
  | cons x a ih =>
      intro b h
      cases b with
      | nil =>
          simp only [number] at h
          omega
      | cons y b =>
          simp only [number] at h
          have hx := x.toNat_lt
          have hy := y.toNat_lt
          have hhead : x = y := UInt8.toNat_inj.mp (by omega)
          have htail : a = b := ih (by omega)
          rw [hhead, htail]

theorem descend_child (key : Key) (path : DerivationPath) :
    KeyTree.descend child key path = { key with path := key.path ++ path } := by
  induction path generalizing key with
  | nil => simp
  | cons c path ih => simp [ih, child]

theorem words_injective :
    Function.Injective fun path : DerivationPath => path.flatMap fun c => toLeBytes c.indexWord := by
  intro a
  induction a with
  | nil =>
      intro b h
      cases b with
      | nil => rfl
      | cons y b => simp [toLeBytes] at h
  | cons x a ih =>
      intro b h
      cases b with
      | nil => simp [toLeBytes] at h
      | cons y b =>
          simp only [List.flatMap_cons] at h
          obtain ⟨hhead, htail⟩ := List.append_inj h (by simp [toLeBytes])
          have hword : x.indexWord = y.indexWord := by
            have hread := congrArg fromLeBytes hhead
            rwa [fromLeBytes_toLeBytes, fromLeBytes_toLeBytes, Option.some.injEq] at hread
          have hxy : x = y := by
            rw [← childNumberOf_indexWord x, hword, childNumberOf_indexWord]
          rw [hxy, ih htail]

/-- Different paths give different public keys. -/
theorem publicKey_separated (root : Key) : KeyTree.SeparatedBy publicKey child root := by
  intro path path' h
  have hbytes := number_injective h
  simp only [Key.bytes, descend_child] at hbytes
  exact List.append_cancel_left (words_injective (List.append_cancel_right hbytes))

/-! ### The stored counter -/

theorem readStrokes_append (n k : Nat) (bytes : Bytes) :
    readStrokes n (List.replicate k 1 ++ 0 :: bytes) = (n + k) :: readStrokes 0 bytes := by
  induction k generalizing n with
  | zero => simp [readStrokes]
  | succ k ih =>
      rw [List.replicate_succ, List.cons_append, readStrokes, if_neg (by decide), ih]
      congr 1
      omega

theorem readStrokes_strokes (numbers : List Nat) : readStrokes 0 (strokes numbers) = numbers := by
  induction numbers with
  | nil => rfl
  | cons n numbers ih =>
      rw [strokes, List.flatMap_cons, List.append_assoc, List.singleton_append, readStrokes_append,
        Nat.zero_add]
      exact congrArg (n :: ·) ih

theorem counterRoundTrip : serde.CounterRoundTrip :=
  fun counter => ⟨strokes counter.timestamps, rfl, by simp [serde, readStrokes_strokes]⟩

/-! ### The assumptions on a vendor -/

variable (ownSeed : Bytes) (fault : Nat → Option CryptokiError) (clock : Nat → Nat)

theorem derivesChildren : recipe.DerivesChildren (hsm ownSeed fault clock) child := by
  intro object key c key' hkey h
  simp only [recipe, hsm, derive, hkey, fromLeBytes_toLeBytes, Except.ok.injEq] at h
  rw [← h, childNumberOf_indexWord]

def schnorr (object : Object Key) (_ : String) (_ : DerivationPath) (_ : Digest) :
    Option (Signature Key) :=
  object.key.map fun key => ⟨signatureBytes, key⟩

theorem taprootSigner_computes : taprootSigner.Computes (hsm ownSeed fault clock) schnorr := by
  intro m handle object label path digest hobject
  simp only [taprootSigner, Program.wp_run_bind, Session.wp_sign, hobject]
  refine ⟨fun e he => ⟨.tick m, fun hfree => by simp [hfree m.calls] at he⟩, fun _ => ?_⟩
  cases hkey : object.key with
  | none => exact ⟨.tick m, fun _ => by simp [schnorr, hkey]⟩
  | some key => exact ⟨.tick m, by simp [schnorr, hkey, hsm]⟩

theorem schnorr_madeWith (object : Object Key) (label : String) (path : DerivationPath)
    (digest : Digest) (sig : Signature Key) (h : schnorr object label path digest = some sig) :
    object.key = some sig.madeWith := by
  obtain ⟨key, hkey, rfl⟩ := Option.map_eq_some_iff.mp h
  exact hkey

end IdealVendor

end EmvaultPkcs11
