import Mathlib.Data.List.Prime
import Mathlib.NumberTheory.LucasPrimality

/-! Powers modulo a number, and Lucas's test of primality, in a form that can be evaluated. -/

namespace Lucas

/-- `a ^ n` modulo `m` by squaring, for an exponent of at most `digits` binary digits. -/
def powMod (m a : Nat) : Nat → Nat → Nat
  | 0, _ => 1 % m
  | digits + 1, n =>
      let half := powMod m a digits (n / 2)
      if n % 2 = 0 then half * half % m else half * half * a % m

theorem powMod_eq (m a digits : Nat) : ∀ n, n < 2 ^ digits → powMod m a digits n = a ^ n % m := by
  induction digits with
  | zero =>
      intro n hn
      obtain rfl : n = 0 := by simpa using hn
      rfl
  | succ digits ih =>
      intro n hn
      have hhalf : n / 2 < 2 ^ digits := by
        rw [pow_succ] at hn
        omega
      have hsquare : (a ^ (n / 2) % m) * (a ^ (n / 2) % m) % m = a ^ (n / 2 + n / 2) % m := by
        rw [← Nat.mul_mod, pow_add]
      rw [powMod, ih _ hhalf]
      by_cases heven : n % 2 = 0
      · rw [if_pos heven, hsquare]
        congr 2
        omega
      · rw [if_neg heven, Nat.mul_mod, hsquare, ← Nat.mul_mod, ← pow_succ]
        congr 2
        omega

/-- Lucas's test: `a` has order `p - 1` modulo `p`. -/
theorem prime_of_powMod {p : Nat} (a digits : Nat) (factors : List Nat) (hp : 1 < p) (hsize : p ≤ 2 ^ digits)
    (hfactors : factors.prod = p - 1) (hprime : ∀ q ∈ factors, q.Prime)
    (hone : powMod p a digits (p - 1) = 1) (hnot : ∀ q ∈ factors, powMod p a digits ((p - 1) / q) ≠ 1) :
    p.Prime := by
  have hcast (n : Nat) (hn : n ≤ p - 1) : (a : ZMod p) ^ n = 1 ↔ powMod p a digits n = 1 := by
    have hlt : n < 2 ^ digits := by omega
    rw [powMod_eq p a digits n hlt, ← Nat.cast_pow, ← Nat.cast_one, ZMod.natCast_eq_natCast_iff',
      Nat.mod_eq_of_lt hp]
  refine lucas_primality p (a : ZMod p) ((hcast _ (Nat.le_refl _)).mpr hone) fun q hq hdvd heq => ?_
  have hmem : q ∈ factors := by
    rw [← hfactors] at hdvd
    obtain ⟨r, hr, hqr⟩ := (Prime.dvd_prod_iff hq.prime).mp hdvd
    rwa [(Nat.prime_dvd_prime_iff_eq hq (hprime r hr)).mp hqr]
  exact hnot q hmem ((hcast _ (Nat.div_le_self _ _)).mp heq)

end Lucas
