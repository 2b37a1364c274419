import Mathlib.Data.List.Basic
/-!
# Base64 — bytes as text of sixty-four symbols

Text is a list of UTF-16 code units.  `encode` pads to groups of four; `decode` reads both alphabets up to the first
padding sign and skips every other code unit, as a lenient reader does.
-/
namespace Base64

open List

def symbol (n : Nat) : UInt16 :=
  UInt16.ofNat (if n < 26 then 65 + n else if n < 52 then 71 + n else if n < 62 then n - 4 else if n = 62 then 43 else 47)

def symbolValue (u : UInt16) : Option Nat :=
  if 65 ≤ u ∧ u ≤ 90 then some (u.toNat - 65)
  else if 97 ≤ u ∧ u ≤ 122 then some (u.toNat - 71)
  else if 48 ≤ u ∧ u ≤ 57 then some (u.toNat + 4)
  else if u = 43 ∨ u = 45 then some 62
  else if u = 47 ∨ u = 95 then some 63
  else none

def padding : UInt16 := 61

def sextets : List UInt8 → List Nat
  | []               => []
  | [a]              => [a.toNat / 4, a.toNat % 4 * 16]
  | [a, b]           => [a.toNat / 4, a.toNat % 4 * 16 + b.toNat / 16, b.toNat % 16 * 4]
  | a :: b :: c :: s =>
    a.toNat / 4 :: (a.toNat % 4 * 16 + b.toNat / 16) :: (b.toNat % 16 * 4 + c.toNat / 64) :: c.toNat % 64 :: sextets s

def paddingOf (length : Nat) : List UInt16 := List.replicate ((3 - length % 3) % 3) padding

def encode (bytes : List UInt8) : List UInt16 := (sextets bytes).map symbol ++ paddingOf bytes.length

def bytesOf : List Nat → List UInt8
  | a :: b :: c :: d :: s =>
    UInt8.ofNat (a * 4 + b / 16) :: UInt8.ofNat (b * 16 + c / 4) :: UInt8.ofNat (c * 64 + d) :: bytesOf s
  | [a, b, c]             => [UInt8.ofNat (a * 4 + b / 16), UInt8.ofNat (b * 16 + c / 4)]
  | [a, b]                => [UInt8.ofNat (a * 4 + b / 16)]
  | _                     => []

def decode (s : List UInt16) : List UInt8 :=
  bytesOf ((s.takeWhile (fun u => decide (u ≠ padding))).filterMap symbolValue)

theorem symbolValue_symbol : ∀ n : Fin 64, symbolValue (symbol n.val) = some n.val ∧ symbol n.val ≠ padding := by
  decide

theorem sextets_lt : ∀ (bytes : List UInt8), ∀ n ∈ sextets bytes, n < 64
  | [],               n, hn => absurd hn not_mem_nil
  | [a],              n, hn => by
    have := a.toNat_lt
    simp only [sextets, mem_cons, not_mem_nil, or_false] at hn
    omega
  | [a, b],           n, hn => by
    have := a.toNat_lt
    have := b.toNat_lt
    simp only [sextets, mem_cons, not_mem_nil, or_false] at hn
    omega
  | a :: b :: c :: s, n, hn => by
    have := a.toNat_lt
    have := b.toNat_lt
    have := c.toNat_lt
    simp only [sextets, mem_cons] at hn
    rcases hn with rfl | rfl | rfl | rfl | hn
    · omega
    · omega
    · omega
    · omega
    · exact sextets_lt s n hn

theorem ofNat_eq_of_mod {n : Nat} {a : UInt8} (h : n % 256 = a.toNat) : UInt8.ofNat n = a := by
  apply UInt8.toNat.inj
  rw [UInt8.toNat_ofNat']
  exact h

theorem bytesOf_sextets : ∀ bytes : List UInt8, bytesOf (sextets bytes) = bytes
  | []               => rfl
  | [a]              => by
    have := a.toNat_lt
    rw [sextets, bytesOf, ofNat_eq_of_mod (a := a) (by omega)]
  | [a, b]           => by
    have := a.toNat_lt
    have := b.toNat_lt
    rw [sextets, bytesOf, ofNat_eq_of_mod (a := a) (by omega), ofNat_eq_of_mod (a := b) (by omega)]
  | a :: b :: c :: s => by
    have := a.toNat_lt
    have := b.toNat_lt
    have := c.toNat_lt
    rw [sextets, bytesOf, ofNat_eq_of_mod (a := a) (by omega), ofNat_eq_of_mod (a := b) (by omega),
      ofNat_eq_of_mod (a := c) (by omega), bytesOf_sextets s]

theorem values_encode (padded : List UInt16) (hpadded : ∀ u ∈ padded, u = padding) : ∀ values : List Nat,
    (∀ n ∈ values, n < 64) →
      ((values.map symbol ++ padded).takeWhile (fun u => decide (u ≠ padding))).filterMap symbolValue = values
  | [],           _ => by
    cases padded with
    | nil       => rfl
    | cons u us =>
      rw [hpadded u mem_cons_self]
      rfl
  | n :: values, h => by
    have hn : symbolValue (symbol n) = some n ∧ symbol n ≠ padding := symbolValue_symbol ⟨n, h n mem_cons_self⟩
    obtain ⟨hvalue, hsymbol⟩ := hn
    rw [map_cons, cons_append, takeWhile_cons, if_pos (decide_eq_true hsymbol),
      filterMap_cons_some hvalue,
      values_encode padded hpadded values (fun n hn => h n (mem_cons_of_mem _ hn))]

/-- **Bytes written as text are read back.** -/
theorem decode_encode (bytes : List UInt8) : decode (encode bytes) = bytes := by
  rw [decode, encode, values_encode (paddingOf bytes.length) (fun u hu => eq_of_mem_replicate hu) _ (sextets_lt bytes),
    bytesOf_sextets]

end Base64
