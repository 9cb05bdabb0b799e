import EmvaultPkcs11.Bitcoin
import EmvaultPkcs11.LibraryLucas

/-! The points of secp256k1 and their SEC1 encodings: a public key is a point, written with its X coordinate and
the parity of Y in 33 bytes or with both coordinates in 65. -/

namespace EmvaultPkcs11

namespace Secp256k1

/-- The order of the base field. -/
def p : Nat := 2 ^ 256 - 2 ^ 32 - 977

theorem p_prime : p.Prime := by
  have h₁ : (22149492674086928081353 : Nat).Prime := by
    have h₀ : (173378833005251801 : Nat).Prime :=
      Lucas.prime_of_powMod 6 64 [2, 2, 2, 5, 5, 2621, 24809, 13331831] (by decide) (by decide) (by decide)
        (by norm_num) (by decide +kernel) (by decide +kernel)
    exact Lucas.prime_of_powMod 5 128 [2, 2, 2, 3, 5323, 173378833005251801] (by decide) (by decide) (by decide)
      (by simp only [List.forall_mem_cons, h₀]; norm_num) (by decide +kernel) (by decide +kernel)
  have h₂ : (132896956044521568488119 : Nat).Prime :=
    Lucas.prime_of_powMod 6 128 [2, 3, 22149492674086928081353] (by decide) (by decide) (by decide)
      (by simp only [List.forall_mem_cons, h₁]; norm_num) (by decide +kernel) (by decide +kernel)
  have h₃ : (255515944373312847190720520512484175977 : Nat).Prime :=
    Lucas.prime_of_powMod 3 128 [2, 2, 2, 7, 7, 11, 1627, 2657, 4423, 41201, 96557, 7240687, 107590001]
      (by decide) (by decide) (by decide) (by norm_num) (by decide +kernel) (by decide +kernel)
  have h₄ : (205115282021455665897114700593932402728804164701536103180137503955397371 : Nat).Prime :=
    Lucas.prime_of_powMod 10 256
      [2, 3, 5, 29, 29, 31, 7723, 132896956044521568488119, 255515944373312847190720520512484175977]
      (by decide) (by decide) (by decide) (by simp only [List.forall_mem_cons, h₂, h₃]; norm_num)
      (by decide +kernel) (by decide +kernel)
  exact Lucas.prime_of_powMod 3 256
    [2, 3, 7, 13441, 205115282021455665897114700593932402728804164701536103180137503955397371]
    (by decide) (by decide) (by decide) (by simp only [List.forall_mem_cons, h₄]; norm_num)
    (by decide +kernel) (by decide +kernel)

instance : Fact p.Prime := ⟨p_prime⟩

/-- A point other than the point at infinity. -/
structure Point where
  x : Nat
  y : Nat
  x_lt : x < p
  y_lt : y < p
  on_curve : y ^ 2 % p = (x ^ 3 + 7) % p
  deriving DecidableEq

@[ext] theorem Point.ext {P Q : Point} (hx : P.x = Q.x) (hy : P.y = Q.y) : P = Q := by
  cases P
  cases Q
  simp only at hx hy
  subst hx hy
  rfl

/-! ### Square roots -/

theorem eq_or_add_eq_of_sq {a b : Nat} (ha : a < p) (hb : b < p) (h : a ^ 2 % p = b ^ 2 % p) :
    a = b ∨ a + b = p ∨ a + b = 0 := by
  have hsq : (a : ZMod p) ^ 2 = (b : ZMod p) ^ 2 := by
    rw [← Nat.cast_pow, ← Nat.cast_pow, ZMod.natCast_eq_natCast_iff']
    exact h
  rcases sq_eq_sq_iff_eq_or_eq_neg.mp hsq with heq | heq
  · left
    rw [ZMod.natCast_eq_natCast_iff', Nat.mod_eq_of_lt ha, Nat.mod_eq_of_lt hb] at heq
    exact heq
  · right
    have hzero : ((a + b : Nat) : ZMod p) = 0 := by
      rw [Nat.cast_add, heq, neg_add_cancel]
    obtain ⟨k, hk⟩ := (ZMod.natCast_eq_zero_iff _ _).mp hzero
    have hsmall : k < 2 := by
      by_contra hlarge
      have : p * 2 ≤ p * k := Nat.mul_le_mul_left p (by omega)
      omega
    interval_cases k
    · right
      omega
    · left
      omega

/-- The points with one X coordinate differ in the sign of Y. -/
theorem Point.y_eq_or {P : Point} {r : Nat} (hr : r < p) (h : r ^ 2 % p = (P.x ^ 3 + 7) % p) :
    P.y = r ∨ P.y + r = p ∨ P.y + r = 0 :=
  eq_or_add_eq_of_sq P.y_lt hr (P.on_curve.trans h.symm)

/-- No point has an X coordinate that gives a number that is not a square. -/
theorem Point.x_ne_of_jacobiSym {x : Nat} (h : jacobiSym (x ^ 3 + 7 : Nat) p = -1) (P : Point) : P.x ≠ x := by
  rintro rfl
  apply ZMod.nonsquare_of_jacobiSym_eq_neg_one h
  refine ⟨(P.y : ZMod p), ?_⟩
  rw [← sq, ← Nat.cast_pow, Int.cast_natCast, ZMod.natCast_eq_natCast_iff', P.on_curve]

theorem p_odd : p % 2 = 1 := by decide

/-! ### Big-endian numbers -/

/-- The last `length` digits of a number to the base 256, the first being the highest. -/
def toBe : Nat → Nat → Bytes
  | 0, _ => []
  | length + 1, n => toBe length (n / 256) ++ [UInt8.ofNat (n % 256)]

def fromBe (bytes : Bytes) : Nat := bytes.foldl (fun n b => n * 256 + b.toNat) 0

@[simp] theorem length_toBe (length : Nat) : ∀ n, (toBe length n).length = length := by
  induction length with
  | zero => exact fun n => rfl
  | succ length ih => exact fun n => by rw [toBe, List.length_append, ih, List.length_singleton]

theorem fromBe_append_singleton (bytes : Bytes) (b : UInt8) :
    fromBe (bytes ++ [b]) = fromBe bytes * 256 + b.toNat := by
  rw [fromBe, List.foldl_append]
  rfl

theorem fromBe_toBe (length : Nat) : ∀ n, n < 256 ^ length → fromBe (toBe length n) = n := by
  induction length with
  | zero =>
      intro n hn
      obtain rfl : n = 0 := by simpa using hn
      rfl
  | succ length ih =>
      intro n hn
      have hdiv : n / 256 < 256 ^ length := by
        rw [pow_succ] at hn
        exact Nat.div_lt_of_lt_mul (by omega)
      have hdigit : (UInt8.ofNat (n % 256)).toNat = n % 256 := by
        rw [UInt8.toNat_ofNat']
        omega
      rw [toBe, fromBe_append_singleton, ih _ hdiv, hdigit]
      omega

theorem toBe_fromBe (bytes : Bytes) : toBe bytes.length (fromBe bytes) = bytes := by
  induction bytes using List.reverseRecOn with
  | nil => rfl
  | append_singleton bytes b ih =>
      have hb := b.toNat_lt
      have hdiv : fromBe (bytes ++ [b]) / 256 = fromBe bytes := by
        rw [fromBe_append_singleton]
        omega
      have hmod : fromBe (bytes ++ [b]) % 256 = b.toNat := by
        rw [fromBe_append_singleton]
        omega
      rw [List.length_append, List.length_singleton, toBe, hdiv, hmod, ih, UInt8.ofNat_toNat]

theorem lt_of_lt_p {n : Nat} (h : n < p) : n < 256 ^ 32 := h.trans (by decide)

/-! ### Encodings -/

namespace Point

/-- The marker of a compressed point. -/
def marker (P : Point) : UInt8 := if P.y % 2 = 0 then 0x02 else 0x03

/-- The 33-byte form. -/
def compressed (P : Point) : Bytes := P.marker :: toBe 32 P.x

/-- The 65-byte form. -/
def uncompressed (P : Point) : Bytes := 0x04 :: (toBe 32 P.x ++ toBe 32 P.y)

@[simp] theorem length_compressed (P : Point) : P.compressed.length = 33 := by
  simp [compressed]

@[simp] theorem length_uncompressed (P : Point) : P.uncompressed.length = 65 := by
  simp [uncompressed]

theorem marker_eq_or (P : Point) : P.marker = 0x02 ∨ P.marker = 0x03 := by
  unfold marker
  split
  · exact Or.inl rfl
  · exact Or.inr rfl

/-! ### Reading -/

/-- The point with the given coordinates, where they are on the curve. -/
def ofCoordinates (x y : Nat) : Option Point :=
  if h : x < p ∧ y < p ∧ y ^ 2 % p = (x ^ 3 + 7) % p then some ⟨x, y, h.1, h.2.1, h.2.2⟩ else none

theorem ofCoordinates_eq_some_iff {x y : Nat} {P : Point} :
    ofCoordinates x y = some P ↔ P.x = x ∧ P.y = y := by
  unfold ofCoordinates
  constructor
  · intro h
    split at h
    · obtain rfl := Option.some.inj h
      exact ⟨rfl, rfl⟩
    · cases h
  · rintro ⟨rfl, rfl⟩
    rw [dif_pos ⟨P.x_lt, P.y_lt, P.on_curve⟩]

/-- A square root of `x ^ 3 + 7`, where it has one: the order of the field is 3 modulo 4. -/
def rootAt (x : Nat) : Nat := Lucas.powMod p (x ^ 3 + 7) 256 ((p + 1) / 4)

/-- The point with the given X coordinate and parity of Y. -/
def decompress (x parity : Nat) : Option Point :=
  ofCoordinates x (if rootAt x % 2 = parity then rootAt x else p - rootAt x)

theorem rootAt_eq (x : Nat) : rootAt x = (x ^ 3 + 7) ^ ((p + 1) / 4) % p :=
  Lucas.powMod_eq p _ 256 _ (by decide)

theorem rootAt_lt (x : Nat) : rootAt x < p := by
  rw [rootAt_eq]
  exact Nat.mod_lt _ (by decide)

theorem rootAt_sq (P : Point) : rootAt P.x ^ 2 % p = (P.x ^ 3 + 7) % p := by
  have hcurve : ((P.x ^ 3 + 7 : Nat) : ZMod p) = (P.y : ZMod p) ^ 2 := by
    rw [← Nat.cast_pow, ZMod.natCast_eq_natCast_iff']
    exact P.on_curve.symm
  rw [rootAt_eq, ← ZMod.natCast_eq_natCast_iff', Nat.cast_pow, ZMod.natCast_mod, Nat.cast_pow, hcurve]
  calc (((P.y : ZMod p) ^ 2) ^ ((p + 1) / 4)) ^ 2
      = (P.y : ZMod p) ^ (2 * ((p + 1) / 4 * 2)) := by rw [← pow_mul, ← pow_mul]
    _ = (P.y : ZMod p) ^ (p + 1) := congrArg ((P.y : ZMod p) ^ ·) (by decide)
    _ = (P.y : ZMod p) ^ 2 := by rw [pow_succ, ZMod.pow_card, sq]

theorem decompress_eq_some_iff {x parity : Nat} {P : Point} (hparity : parity < 2) :
    decompress x parity = some P ↔ P.x = x ∧ P.y % 2 = parity := by
  have hodd := p_odd
  rw [decompress, ofCoordinates_eq_some_iff]
  constructor
  · rintro ⟨hx, hy⟩
    refine ⟨hx, ?_⟩
    have hlt := P.y_lt
    have hrootlt := rootAt_lt x
    by_cases hroot : rootAt x % 2 = parity
    · rw [if_pos hroot] at hy
      rw [hy, hroot]
    · rw [if_neg hroot] at hy
      omega
  · rintro ⟨rfl, hy⟩
    refine ⟨rfl, ?_⟩
    rcases P.y_eq_or (rootAt_lt P.x) P.rootAt_sq with heq | heq | heq
    · rw [if_pos (heq ▸ hy), heq]
    · rw [if_neg (by omega)]
      exact Nat.eq_sub_of_add_eq heq
    · rw [if_pos (by omega)]
      omega

/-- The reader of both forms. -/
def read : Bytes → Option Point
  | [] => none
  | first :: bytes =>
      if first = 0x04 ∧ bytes.length = 64 then ofCoordinates (fromBe (bytes.take 32)) (fromBe (bytes.drop 32))
      else if first = 0x02 ∧ bytes.length = 32 then decompress (fromBe bytes) 0
      else if first = 0x03 ∧ bytes.length = 32 then decompress (fromBe bytes) 1
      else none

theorem digits_eq_iff {bytes : Bytes} {n : Nat} (hlength : bytes.length = 32) (hn : n < p) :
    n = fromBe bytes ↔ bytes = toBe 32 n := by
  constructor
  · intro hn
    rw [hn]
    have hdigits := toBe_fromBe bytes
    rw [hlength] at hdigits
    exact hdigits.symm
  · intro hdigits
    rw [hdigits, fromBe_toBe 32 n (lt_of_lt_p hn)]

/-- The reader accepts exactly the two forms of each point. -/
theorem read_eq_some_iff {bytes : Bytes} {P : Point} :
    read bytes = some P ↔ bytes = P.compressed ∨ bytes = P.uncompressed := by
  constructor
  · intro h
    match bytes, h with
    | first :: bytes, h =>
        rw [read] at h
        by_cases hfull : first = 0x04 ∧ bytes.length = 64
        · rw [if_pos hfull] at h
          obtain ⟨rfl, hlength⟩ := hfull
          obtain ⟨hx, hy⟩ := ofCoordinates_eq_some_iff.mp h
          right
          rw [uncompressed, ← (digits_eq_iff (by simp [hlength]) P.x_lt).mp hx,
            ← (digits_eq_iff (by simp [hlength]) P.y_lt).mp hy, List.take_append_drop]
        rw [if_neg hfull] at h
        by_cases heven : first = 0x02 ∧ bytes.length = 32
        · rw [if_pos heven] at h
          obtain ⟨rfl, hlength⟩ := heven
          obtain ⟨hx, hy⟩ := (decompress_eq_some_iff (by decide)).mp h
          left
          rw [compressed, marker, if_pos hy, ← (digits_eq_iff hlength P.x_lt).mp hx]
        rw [if_neg heven] at h
        by_cases hodd : first = 0x03 ∧ bytes.length = 32
        · rw [if_pos hodd] at h
          obtain ⟨rfl, hlength⟩ := hodd
          obtain ⟨hx, hy⟩ := (decompress_eq_some_iff (by decide)).mp h
          left
          rw [compressed, marker, if_neg (by omega), ← (digits_eq_iff hlength P.x_lt).mp hx]
        · rw [if_neg hodd] at h
          cases h
  · rintro (rfl | rfl)
    · have hx := fromBe_toBe 32 P.x (lt_of_lt_p P.x_lt)
      by_cases heven : P.y % 2 = 0
      · have hread : read P.compressed = decompress P.x 0 := by
          simp [read, compressed, marker, heven, hx]
        rw [hread]
        exact (decompress_eq_some_iff (by decide)).mpr ⟨rfl, heven⟩
      · have hread : read P.compressed = decompress P.x 1 := by
          simp [read, compressed, marker, heven, hx]
        rw [hread]
        exact (decompress_eq_some_iff (by decide)).mpr ⟨rfl, by omega⟩
    · have hx := fromBe_toBe 32 P.x (lt_of_lt_p P.x_lt)
      have hy := fromBe_toBe 32 P.y (lt_of_lt_p P.y_lt)
      have hread : read P.uncompressed = ofCoordinates P.x P.y := by
        simp [read, uncompressed, hx, hy]
      rw [hread]
      exact ofCoordinates_eq_some_iff.mpr ⟨rfl, rfl⟩

end Point

end Secp256k1

end EmvaultPkcs11
