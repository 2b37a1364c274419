import Mathlib.Tactic.IntervalCases
/-!
# Hex — bytes as hexadecimal text

`ofBytes` writes two lower-case digits a byte.  `toBytes` reads pairs of characters the way `parseInt(pair, 16)` does,
which takes more than digits (blanks, a sign, a `0x`) and reads what is no number as zero.
-/
namespace Hex

def ofBytes (bytes : List UInt8) : String :=
  String.ofList (bytes.flatMap (fun byte => [Nat.digitChar (byte.toNat / 16), Nat.digitChar (byte.toNat % 16)]))

def digitValue (c : Char) : Option Nat :=
  if '0' ≤ c ∧ c ≤ '9' then some (c.toNat - 48)
  else if 'a' ≤ c ∧ c ≤ 'f' then some (c.toNat - 87)
  else if 'A' ≤ c ∧ c ≤ 'F' then some (c.toNat - 55)
  else none

/-- The blanks and line ends `parseInt` skips. -/
def isBlank (c : Char) : Bool :=
  [0x9, 0xA, 0xB, 0xC, 0xD, 0x20, 0xA0, 0x1680, 0x2028, 0x2029, 0x202F, 0x205F, 0x3000, 0xFEFF].contains c.toNat ||
    decide (0x2000 ≤ c.toNat ∧ c.toNat ≤ 0x200A)

/-- The digits up to the first other character; without any the text is `NaN`, which a byte array stores as zero. -/
def digitsValue (value : Nat) : List Char → Nat
  | []     => value
  | c :: s => match digitValue c with
    | some digit => digitsValue (16 * value + digit) s
    | none       => value

/-- `parseInt(s, 16)`. -/
def parseInt (s : List Char) : Int :=
  let unsigned (s : List Char) : Int := match s with
    | '0' :: 'x' :: s => digitsValue 0 s
    | '0' :: 'X' :: s => digitsValue 0 s
    | s               => digitsValue 0 s
  match s.dropWhile isBlank with
  | '-' :: s => -unsigned s
  | '+' :: s => unsigned s
  | s        => unsigned s

def bytesOf : List Char → List UInt8
  | c :: d :: s => UInt8.ofInt (parseInt [c, d]) :: bytesOf s
  | _           => []

def toBytes (s : String) : List UInt8 := bytesOf s.toList

theorem parseInt_digits : ∀ high : Fin 16, ∀ low : Fin 16,
    parseInt [Nat.digitChar high.val, Nat.digitChar low.val] = 16 * high.val + low.val := by
  decide

/-- **Bytes written as text are read back.** -/
theorem toBytes_ofBytes (bytes : List UInt8) : toBytes (ofBytes bytes) = bytes := by
  unfold toBytes ofBytes
  rw [String.toList_ofList]
  induction bytes with
  | nil => rfl
  | cons byte bytes ih =>
    have hbyte := byte.toNat_lt
    have hpair := parseInt_digits ⟨byte.toNat / 16, by omega⟩ ⟨byte.toNat % 16, by omega⟩
    simp only at hpair
    rw [List.flatMap_cons, List.cons_append, List.cons_append, List.nil_append, bytesOf, ih, hpair]
    have hvalue : (16 * (byte.toNat / 16 : Nat) + (byte.toNat % 16 : Nat) : Int) = (byte.toNat : Nat) := by omega
    have hmod : ((byte.toNat : Int) % 2 ^ 8).toNat = byte.toNat := by omega
    rw [hvalue, UInt8.ofInt, hmod, UInt8.ofNat_toNat]

theorem ofBytes_injective : Function.Injective ofBytes := Function.LeftInverse.injective toBytes_ofBytes

theorem ofBytes_eq_empty {bytes : List UInt8} : ofBytes bytes = "" ↔ bytes = [] := by
  refine ⟨fun h => ofBytes_injective (h.trans rfl), ?_⟩
  rintro rfl
  rfl

theorem mem_ofBytes {bytes : List UInt8} {c : Char} (h : c ∈ (ofBytes bytes).toList) :
    ∃ digit, digit < 16 ∧ c = Nat.digitChar digit := by
  simp only [ofBytes, String.toList_ofList, List.mem_flatMap, List.mem_cons, List.not_mem_nil, or_false] at h
  obtain ⟨byte, -, rfl | rfl⟩ := h
  · have := byte.toNat_lt
    exact ⟨_, by omega, rfl⟩
  · exact ⟨_, by omega, rfl⟩

end Hex
