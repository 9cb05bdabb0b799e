import Mathlib

/-! ECDSA over any group with scalars. A verifier looks at a point by its abscissa only, which a point shares with
its negative; so a signature stays good when its second number is negated, and of the two numbers one is low. -/

namespace Ecdsa

/-- A group with a base point, and the abscissa of each point as a scalar. The neutral point has none. -/
structure Scheme (R G : Type*) [CommRing R] [AddCommGroup G] [Module R G] where
  base : G
  abscissa : G → Option R
  abscissa_neg : ∀ point, abscissa (-point) = abscissa point

namespace Scheme

variable {R G : Type*} [CommRing R] [AddCommGroup G] [Module R G] (scheme : Scheme R G)

/-- The point a verifier makes of a public key, a digest and a signature, with the inverse of `s`. -/
def commitment (publicKey : G) (z r inverse : R) : G :=
  (z * inverse) • scheme.base + (r * inverse) • publicKey

/-- The signature `(r, s)` of the digest `z` is good under the public key. -/
def Verifies (publicKey : G) (z r s : R) : Prop :=
  r ≠ 0 ∧ ∃ inverse, s * inverse = 1 ∧ scheme.abscissa (scheme.commitment publicKey z r inverse) = some r

theorem commitment_neg (publicKey : G) (z r inverse : R) :
    scheme.commitment publicKey z r (-inverse) = -scheme.commitment publicKey z r inverse := by
  simp only [commitment, mul_neg, neg_smul, neg_add]

variable {scheme}

theorem Verifies.neg {publicKey : G} {z r s : R} (h : scheme.Verifies publicKey z r s) :
    scheme.Verifies publicKey z r (-s) := by
  obtain ⟨hr, inverse, hinverse, habscissa⟩ := h
  refine ⟨hr, -inverse, ?_, ?_⟩
  · rw [neg_mul_neg, hinverse]
  · rw [commitment_neg, scheme.abscissa_neg, habscissa]

/-- A signer that knows the logarithm of the public key and the inverse of its nonce makes good signatures. -/
theorem verifies_of_nonce {d z nonce r s inverse : R} (hr : r ≠ 0)
    (habscissa : scheme.abscissa (nonce • scheme.base) = some r) (hs : nonce * s = z + r * d)
    (hinverse : s * inverse = 1) : scheme.Verifies (d • scheme.base) z r s := by
  refine ⟨hr, inverse, hinverse, ?_⟩
  have hscalar : z * inverse + r * inverse * d = nonce := by
    calc z * inverse + r * inverse * d = (z + r * d) * inverse := by ring
      _ = nonce * (s * inverse) := by rw [← hs, mul_assoc]
      _ = nonce := by rw [hinverse, mul_one]
  rw [commitment, smul_smul, ← add_smul, hscalar, habscissa]

end Scheme

/-! ### Low numbers -/

/-- The lower one of a number and its negative modulo `n`. -/
def low (n s : Nat) : Nat := if n / 2 < s then n - s else s

theorem low_le {n s : Nat} (hs : s < n) : low n s ≤ n / 2 := by
  unfold low
  split <;> omega

theorem low_lt {n s : Nat} (hs : s < n) : low n s < n := by
  unfold low
  split <;> omega

theorem low_of_le {n s : Nat} (hs : s ≤ n / 2) : low n s = s := if_neg (Nat.not_lt.mpr hs)

theorem cast_low {n s : Nat} (hs : s < n) : (low n s : ZMod n) = s ∨ (low n s : ZMod n) = -s := by
  unfold low
  split
  · right
    rw [Nat.cast_sub hs.le, ZMod.natCast_self, zero_sub]
  · left
    rfl

/-- So the lower one makes as good a signature. -/
theorem Scheme.Verifies.low {n : Nat} {G : Type*} [AddCommGroup G] [Module (ZMod n) G] {scheme : Scheme (ZMod n) G}
    {publicKey : G} {z r : ZMod n} {s : Nat} (hs : s < n) (h : scheme.Verifies publicKey z r s) :
    scheme.Verifies publicKey z r (Ecdsa.low n s) := by
  obtain hcast | hcast := cast_low hs
  · rwa [hcast]
  · rw [hcast]
    exact h.neg

end Ecdsa
