import Mathlib.Data.List.Basic
import Mathlib.Tactic.IntervalCases
/-!
# Decimals — integers as text

Text is a list of UTF-16 code units.  `ofInt` writes an integer the way `toString` does; `toInt` reads text the way
`BigInt` does, which also takes blanks around the number, a plus sign, other radices after `0x`, `0o` and `0b`, and no
digits at all as zero.
-/
namespace Decimals

open List

def digit (d : Nat) : UInt16 := UInt16.ofNat (48 + d)

def ofNat (n : Nat) : List UInt16 := (Nat.toDigits 10 n).map (fun c => UInt16.ofNat c.toNat)

def ofInt (n : Int) : List UInt16 := if n < 0 then 45 :: ofNat n.natAbs else ofNat n.natAbs

def digitValue (base : Nat) (u : UInt16) : Option Nat :=
  let value :=
    if 48 ≤ u ∧ u ≤ 57 then some (u.toNat - 48)
    else if 97 ≤ u ∧ u ≤ 122 then some (u.toNat - 87)
    else if 65 ≤ u ∧ u ≤ 90 then some (u.toNat - 55)
    else none
  value.filter (fun value => decide (value < base))

/-- The number that the digits write after `value`. -/
def digitsFrom (base : Nat) (value : Nat) : List UInt16 → Option Nat
  | []      => some value
  | u :: us => (digitValue base u).bind (fun digit => digitsFrom base (base * value + digit) us)

def digits (base : Nat) : List UInt16 → Option Nat
  | []      => none
  | u :: us => digitsFrom base 0 (u :: us)

def isBlank (u : UInt16) : Bool :=
  [0x9, 0xA, 0xB, 0xC, 0xD, 0x20, 0xA0, 0x1680, 0x2028, 0x2029, 0x202F, 0x205F, 0x3000, 0xFEFF].contains u.toNat ||
    decide (0x2000 ≤ u.toNat ∧ u.toNat ≤ 0x200A)

def trim (s : List UInt16) : List UInt16 := ((s.dropWhile isBlank).reverse.dropWhile isBlank).reverse

/-- `BigInt(s)`; what is no number raises. -/
def toInt (s : List UInt16) : Option Int :=
  match trim s with
  | []            => some 0
  | 45 :: s       => (digits 10 s).map (fun value : Nat => -(value : Int))
  | 43 :: s       => (digits 10 s).map Int.ofNat
  | 48 :: u :: s  =>
    if u = 120 ∨ u = 88 then (digits 16 s).map Int.ofNat
    else if u = 111 ∨ u = 79 then (digits 8 s).map Int.ofNat
    else if u = 98 ∨ u = 66 then (digits 2 s).map Int.ofNat
    else (digits 10 (48 :: u :: s)).map Int.ofNat
  | s             => (digits 10 s).map Int.ofNat

/-! ## What is written is read back -/

theorem ofNat_eq (n : Nat) : ofNat n = if n < 10 then [digit n] else ofNat (n / 10) ++ [digit (n % 10)] := by
  have hdigit : ∀ d, d < 10 → UInt16.ofNat (Nat.digitChar d).toNat = digit d := by
    intro d hd
    interval_cases d <;> rfl
  unfold ofNat
  rw [Nat.toDigits_eq_if (by decide)]
  split
  · rename_i hlt
    rw [map_singleton, hdigit n hlt]
  · rw [map_append, map_singleton, hdigit _ (Nat.mod_lt _ (by decide))]

def IsDigit (u : UInt16) : Prop := ∃ d, d < 10 ∧ u = digit d

theorem isDigit_ofNat (n : Nat) : ∀ u ∈ ofNat n, IsDigit u := by
  induction n using Nat.strong_induction_on with
  | _ n ih =>
    rw [ofNat_eq]
    intro u hu
    split at hu
    · rename_i hlt
      exact ⟨n, hlt, mem_singleton.1 hu⟩
    · rcases mem_append.1 hu with hu | hu
      · exact ih (n / 10) (by omega) u hu
      · exact ⟨n % 10, Nat.mod_lt _ (by decide), mem_singleton.1 hu⟩

theorem ofNat_ne_nil (n : Nat) : ofNat n ≠ [] := by
  rw [ofNat_eq]
  split
  · exact cons_ne_nil _ _
  · exact append_ne_nil_of_right_ne_nil _ (cons_ne_nil _ _)

theorem digitValue_digit {d : Nat} (hd : d < 10) : digitValue 10 (digit d) = some d := by
  interval_cases d <;> rfl

theorem digitsFrom_append {base : Nat} : ∀ (value : Nat) (s t : List UInt16),
    digitsFrom base value (s ++ t) = (digitsFrom base value s).bind (fun value => digitsFrom base value t)
  | _,     [],     _ => rfl
  | value, u :: s, t => by
    rw [cons_append, digitsFrom, digitsFrom]
    cases digitValue base u with
    | none       => rfl
    | some digit => exact digitsFrom_append (base * value + digit) s t

theorem digitsFrom_ofNat (n : Nat) : digitsFrom 10 0 (ofNat n) = some n := by
  induction n using Nat.strong_induction_on with
  | _ n ih =>
    rw [ofNat_eq]
    split
    · rename_i hlt
      rw [digitsFrom, digitValue_digit hlt, Option.bind_some, digitsFrom]
      exact congrArg some (by omega)
    · rw [digitsFrom_append, ih (n / 10) (by omega), Option.bind_some, digitsFrom,
        digitValue_digit (Nat.mod_lt _ (by decide)), Option.bind_some, digitsFrom]
      exact congrArg some (by omega)

theorem digits_ofNat (n : Nat) : digits 10 (ofNat n) = some n := by
  cases htext : ofNat n with
  | nil       => exact absurd htext (ofNat_ne_nil n)
  | cons u us => rw [digits, ← htext, digitsFrom_ofNat]

theorem IsDigit.not_blank {u : UInt16} (h : IsDigit u) : isBlank u = false := by
  obtain ⟨d, hd, rfl⟩ := h
  interval_cases d <;> rfl

theorem trim_eq_self {s : List UInt16} (h : ∀ u ∈ s, isBlank u = false) : trim s = s := by
  have hdrop : ∀ {s : List UInt16}, (∀ u ∈ s, isBlank u = false) → s.dropWhile isBlank = s := by
    intro s hs
    cases s with
    | nil       => rfl
    | cons u us => rw [dropWhile_cons_of_neg (by rw [hs u mem_cons_self]; exact Bool.false_ne_true)]
  rw [trim, hdrop h, hdrop (fun u hu => h u (mem_reverse.1 hu)), reverse_reverse]

theorem toInt_of_isDigit {s : List UInt16} (hs : ∀ u ∈ s, IsDigit u) (hne : s ≠ []) :
    toInt s = (digits 10 s).map Int.ofNat := by
  rw [toInt, trim_eq_self (fun u hu => (hs u hu).not_blank)]
  split
  · exact absurd rfl hne
  · obtain ⟨d, hd, heq⟩ := hs 45 mem_cons_self
    interval_cases d <;> cases heq
  · obtain ⟨d, hd, heq⟩ := hs 43 mem_cons_self
    interval_cases d <;> cases heq
  · rename_i u rest
    obtain ⟨d, hd, rfl⟩ := hs u (mem_cons_of_mem _ mem_cons_self)
    interval_cases d <;> rfl
  · rfl

/-- **An integer written as text is read back.** -/
theorem toInt_ofInt (n : Int) : toInt (ofInt n) = some n := by
  unfold ofInt
  split
  · rename_i hneg
    have hblank : ∀ u ∈ 45 :: ofNat n.natAbs, isBlank u = false := by
      intro u hu
      rcases mem_cons.1 hu with rfl | hu
      · rfl
      · exact (isDigit_ofNat _ u hu).not_blank
    rw [toInt, trim_eq_self hblank]
    show (digits 10 (ofNat n.natAbs)).map (fun value : Nat => -(value : Int)) = some n
    rw [digits_ofNat, Option.map_some]
    exact congrArg some (by omega)
  · rw [toInt_of_isDigit (isDigit_ofNat _) (ofNat_ne_nil _), digits_ofNat, Option.map_some]
    exact congrArg some (by
      show ((n.natAbs : Nat) : Int) = n
      omega)

end Decimals
