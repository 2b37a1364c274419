import Mathlib.Algebra.Ring.Parity
/-!
# Powers — powers modulo a number by squaring

`pow m b k n` squares `k` times and multiplies where a bit of `n` is set; that is `b ^ n` modulo `m` for an `n` of `k` bits.
-/
namespace Powers

def bits : Nat → Nat
  | 0     => 1
  | k + 1 => 2 * bits k

def pow (modulus base : Nat) : Nat → Nat → Nat
  | 0,     _ => 1 % modulus
  | k + 1, n =>
    let half := pow modulus base k (n / 2)
    if n % 2 = 1 then half * half % modulus * base % modulus else half * half % modulus

theorem pow_lt {modulus : Nat} (base : Nat) (h : 0 < modulus) : ∀ k n, pow modulus base k n < modulus
  | 0,     _ => Nat.mod_lt _ h
  | k + 1, n => by
    rw [pow]
    split <;> exact Nat.mod_lt _ h

/-- **Squaring computes the power.** -/
theorem pow_eq (modulus base : Nat) : ∀ k n, n < bits k → pow modulus base k n = base.pow n % modulus
  | 0,     n, h => by
    rw [pow, Nat.lt_one_iff.1 h]
    rfl
  | k + 1, n, h => by
    rw [bits] at h
    have ih := pow_eq modulus base k (n / 2) (by omega)
    have hsquare : base.pow (n / 2) * base.pow (n / 2) = base.pow (n / 2 + n / 2) := (Nat.pow_add _ _ _).symm
    rw [pow]
    rw [ih, ← Nat.mul_mod, hsquare]
    split
    · have hodd : n / 2 + n / 2 + 1 = n := by omega
      have hlast : base.pow (n / 2 + n / 2) * base = base.pow (n / 2 + n / 2 + 1) := rfl
      rw [Nat.mod_mul_mod, hlast, hodd]
    · have heven : n / 2 + n / 2 = n := by omega
      rw [heven]

theorem pow_pow (modulus base a b k : Nat) (ha : a < bits k) (hb : b < bits k) :
    pow modulus (pow modulus base k a) k b = base.pow (a * b) % modulus := by
  rw [pow_eq _ _ _ _ ha, pow_eq _ _ _ _ hb]
  refine (Nat.pow_mod _ _ _).trans ?_
  rw [Nat.mod_mod, ← Nat.pow_mod]
  exact congrArg (· % modulus) (Nat.pow_mul ..).symm

end Powers
