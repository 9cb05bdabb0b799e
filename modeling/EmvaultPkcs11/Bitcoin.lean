import Mathlib

/-! The data of the `bitcoin` and `elements` crates that the signing paths read and write: scripts,
amounts, derivation paths, unsigned transactions and the input maps of a PSBT. Keys, x-only keys,
leaf hashes and control blocks are fixed-length byte strings that the crate compares, orders and
copies but never looks into; each is written as the number its bytes denote, whose order is the order
of the bytes. Fields no modelled function reads are left out. -/

namespace EmvaultPkcs11

abbrev Bytes := List UInt8
abbrev Script := Bytes

/-- `bitcoin::Amount`: a 64-bit number of satoshis. -/
abbrev Amount := UInt64

abbrev PublicKey := Nat
abbrev XOnlyPublicKey := Nat
abbrev TapLeafHash := Nat
abbrev ControlBlock := Nat

/-- The first four bytes of the HASH160 of a public key. -/
abbrev Fingerprint := Bytes

/-- `BTreeMap`: its entries are visited in the order of their keys. -/
abbrev BTreeMap (κ β : Type) [Ord κ] := Std.ExtTreeMap κ β compare

inductive Network where
  | bitcoin | testnet | testnet4 | signet | regtest
  deriving DecidableEq

instance neZero_indexBound : NeZero (2 ^ 31 : Nat) := ⟨pow_ne_zero 31 two_ne_zero⟩

/-- One segment of a path. Its index lies within `[0, 2^31 - 1]`. -/
inductive ChildNumber where
  | normal (index : Fin (2 ^ 31))
  | hardened (index : Fin (2 ^ 31))
  deriving DecidableEq

abbrev DerivationPath := List ChildNumber

/-- `impl Display for ChildNumber`. -/
def ChildNumber.display : ChildNumber → String
  | .normal index => toString index.val
  | .hardened index => toString index.val ++ "'"

/-- `impl Display for DerivationPath`: the segments between slashes, without a leading `m`. -/
def displayPath (path : DerivationPath) : String :=
  "/".intercalate (path.map ChildNumber.display)

/-- An address as the policy uses it: the script it pays to, and the networks it is valid on. -/
structure Address where
  scriptPubkey : Script
  networks : List Network
  deriving DecidableEq

structure OutPoint where
  txid : Bytes
  vout : Nat
  deriving DecidableEq

structure TxIn where
  previousOutput : OutPoint
  sequence : Nat
  deriving DecidableEq

structure TxOut where
  value : Amount
  scriptPubkey : Script
  deriving DecidableEq

/-- An unsigned transaction: its inputs have no `scriptSig` and no witness. -/
structure Transaction where
  version : Int
  lockTime : Nat
  input : List TxIn
  output : List TxOut
  deriving DecidableEq

/-- `bitcoin::PublicKey`: a key with the form it is serialized in. -/
structure BitcoinPublicKey where
  compressed : Bool
  inner : PublicKey
  deriving DecidableEq

/-- `bitcoin::PublicKey::new`: keys made by the crate are compressed. -/
def BitcoinPublicKey.new (key : PublicKey) : BitcoinPublicKey := ⟨true, key⟩

/-! ### Orders on composite keys

Both derived orders of the source compare the first component and then the second. -/

instance : Ord BitcoinPublicKey :=
  ⟨compareLex (compareOn BitcoinPublicKey.compressed) (compareOn BitcoinPublicKey.inner)⟩

instance : Std.TransOrd BitcoinPublicKey :=
  inferInstanceAs (Std.TransCmp
    (compareLex (compareOn BitcoinPublicKey.compressed) (compareOn BitcoinPublicKey.inner)))

/-- The key of `tap_script_sigs`. -/
structure TapScriptKey where
  xonly : XOnlyPublicKey
  leafHash : TapLeafHash
  deriving DecidableEq

instance : Ord TapScriptKey :=
  ⟨compareLex (compareOn TapScriptKey.xonly) (compareOn TapScriptKey.leafHash)⟩

instance : Std.TransOrd TapScriptKey :=
  inferInstanceAs (Std.TransCmp
    (compareLex (compareOn TapScriptKey.xonly) (compareOn TapScriptKey.leafHash)))

/-- Two projections that together determine a value order it lawfully. -/
theorem lawfulEqCmp_compareLex_compareOn {α β γ : Type} [Ord β] [Ord γ] [Std.LawfulEqOrd β]
    [Std.LawfulEqOrd γ] {f : α → β} {g : α → γ} (hinj : ∀ a b, f a = f b → g a = g b → a = b) :
    Std.LawfulEqCmp (compareLex (compareOn f) (compareOn g)) where
  compare_self := by simp [compareLex, compareOn]
  eq_of_compare := by
    intro a b h
    simp only [compareLex, compareOn, Ordering.then_eq_eq] at h
    exact hinj a b (Std.LawfulEqOrd.eq_of_compare h.1) (Std.LawfulEqOrd.eq_of_compare h.2)

instance : Std.LawfulEqOrd BitcoinPublicKey :=
  lawfulEqCmp_compareLex_compareOn fun a b hcompressed hinner => by
    cases a; cases b; simp_all

instance : Std.LawfulEqOrd TapScriptKey :=
  lawfulEqCmp_compareLex_compareOn fun a b hxonly hleaf => by
    cases a; cases b; simp_all

end EmvaultPkcs11
