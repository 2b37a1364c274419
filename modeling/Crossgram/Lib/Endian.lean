import Mathlib.Data.List.Induction
/-!
# Endian — numbers as bytes

`big k n` are `k` bytes of `n`, the most significant first, and `value` reads them back.  The little-endian bytes are the
same reversed.
-/
namespace Endian

open List

/-- The first number that does not fit into `k` bytes. -/
def bound : Nat → Nat
  | 0     => 1
  | k + 1 => 256 * bound k

def big : Nat → Nat → List UInt8
  | 0,     _ => []
  | k + 1, n => big k (n / 256) ++ [UInt8.ofNat n]

def value (bytes : List UInt8) : Nat := bytes.foldl (fun n byte => 256 * n + byte.toNat) 0

@[simp] theorem length_big : ∀ k n : Nat, (big k n).length = k
  | 0,     _ => rfl
  | k + 1, n => by
    rw [big, length_append, length_big k]
    rfl

theorem value_concat (bytes : List UInt8) (byte : UInt8) : value (bytes ++ [byte]) = 256 * value bytes + byte.toNat := by
  unfold value
  rw [foldl_append]
  rfl

theorem value_big : ∀ k n : Nat, value (big k n) = n % bound k
  | 0,     n => (Nat.mod_one n).symm
  | k + 1, n => by
    have hbyte : (UInt8.ofNat n).toNat = n % 256 := UInt8.toNat_ofNat'
    rw [big, value_concat, value_big k, hbyte, bound, Nat.mod_mul]
    omega

theorem value_lt (bytes : List UInt8) : value bytes < bound bytes.length := by
  induction bytes using List.reverseRecOn with
  | nil => exact Nat.one_pos
  | append_singleton bytes byte ih =>
    have hbyte := byte.toNat_lt
    rw [value_concat, length_append, length_singleton, bound]
    omega

/-- **Bytes are the bytes of their value.** -/
theorem big_value (bytes : List UInt8) : big bytes.length (value bytes) = bytes := by
  induction bytes using List.reverseRecOn with
  | nil => rfl
  | append_singleton bytes byte ih =>
    have hbyte := byte.toNat_lt
    have hdiv : (256 * value bytes + byte.toNat) / 256 = value bytes := by omega
    have hmod : UInt8.ofNat (256 * value bytes + byte.toNat) = byte := by
      apply UInt8.toNat_inj.1
      rw [UInt8.toNat_ofNat']
      omega
    rw [value_concat, length_append, length_singleton, big, hdiv, hmod, ih]

theorem big_value_of_length {bytes : List UInt8} {k : Nat} (h : bytes.length = k) : big k (value bytes) = bytes := by
  rw [← h]
  exact big_value bytes

theorem value_big_of_lt {k n : Nat} (h : n < bound k) : value (big k n) = n := by
  rw [value_big, Nat.mod_eq_of_lt h]

theorem big_mod (k n : Nat) : big k (n % bound k) = big k n := by
  rw [← value_big, big_value_of_length (length_big k n)]

theorem big_add (j : Nat) : ∀ k n : Nat, big (j + k) n = big j (n / bound k) ++ big k n
  | 0,     n => by
    rw [Nat.add_zero, bound, Nat.div_one, big, append_nil]
  | k + 1, n => by
    rw [← Nat.add_assoc, big, big_add j k, bound, Nat.div_div_eq_div_mul, big, append_assoc]

end Endian
