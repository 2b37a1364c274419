import Mathlib.Algebra.Order.Ring.Int
/-!
# Doubles — whole numbers as doubles

A double holds 53 significant bits: a whole number past 2 ^ 53 is rounded to a multiple of a power of two, the even one
of two that are as near.  Up to 2 ^ 53 every whole number is its own double.
-/
namespace Doubles

def spacing (n : Nat) : Nat := 2 ^ (n.log2 - 52)

def nearest (n : Nat) : Nat :=
  let q := n / spacing n
  let r := n % spacing n
  if 2 * r < spacing n ∨ (2 * r = spacing n ∧ q % 2 = 0) then q * spacing n else (q + 1) * spacing n

def round (n : Int) : Int := if 0 ≤ n then nearest n.toNat else -nearest (-n).toNat

theorem nearest_of_spacing_dvd {n : Nat} (h : spacing n ∣ n) : nearest n = n := by
  have hpos : 0 < spacing n := Nat.pow_pos (by decide)
  unfold nearest
  rw [Nat.mod_eq_zero_of_dvd h, if_pos (Or.inl (by omega))]
  exact Nat.div_mul_cancel h

theorem nearest_eq {n : Nat} (h : n ≤ 2 ^ 53) : nearest n = n := by
  refine nearest_of_spacing_dvd ?_
  rcases h.lt_or_eq with hlt | rfl
  · have hlog : n.log2 - 52 = 0 := by
      by_cases hn : n = 0
      · rw [hn]
        rfl
      · have := (Nat.log2_lt hn).2 hlt
        omega
    rw [spacing, hlog]
    exact one_dvd n
  · have hlog : (2 ^ 53 : Nat).log2 = 53 := Nat.log2_two_pow
    rw [spacing, hlog]
    exact Nat.pow_dvd_pow 2 (by decide)

/-- **Whole numbers up to 2 ^ 53 are not rounded.** -/
theorem round_eq {n : Int} (hlow : -2 ^ 53 ≤ n) (hhigh : n ≤ 2 ^ 53) : round n = n := by
  unfold round
  split
  · rw [nearest_eq (by omega)]
    omega
  · rw [nearest_eq (by omega)]
    omega

end Doubles
