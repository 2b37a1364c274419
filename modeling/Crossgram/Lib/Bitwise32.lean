import Mathlib.Data.Int.Notation
/-!
# Bitwise32 — numbers under 32-bit operators

A number of ECMAScript is a signed or unsigned integer, and its bitwise operators read the low 32 bits of it: `x >>> k`
answers an unsigned number, the others a signed one.  `bits` forgets which, so what was computed with the operators and
with `+` is read off the bits.
-/
namespace Bitwise32

def bits (x : Int) : BitVec 32 := BitVec.ofInt 32 x

/-- `x & y` -/
def bitAnd (x y : Int) : Int := (bits x &&& bits y).toInt

/-- `x | y` -/
def bitOr (x y : Int) : Int := (bits x ||| bits y).toInt

/-- `x ^ y` -/
def bitXor (x y : Int) : Int := (bits x ^^^ bits y).toInt

/-- `~x` -/
def bitNot (x : Int) : Int := (~~~bits x).toInt

/-- `x << k` -/
def shiftLeft (x : Int) (k : Nat) : Int := (bits x <<< k).toInt

/-- `x >>> k` -/
def shiftRight (x : Int) (k : Nat) : Int := (bits x >>> k).toNat

/-- `x >>> 0` -/
def uint32 (x : Int) : Int := (bits x).toNat

/-- A number as an element of a `Uint32Array`. -/
def store (x : Int) : UInt32 := .ofBitVec (bits x)

/-- An element of a `Uint32Array` as a number. -/
def load (w : UInt32) : Int := w.toNat

@[simp] theorem bits_toNat (x : BitVec 32) : bits (x.toNat : Int) = x := by
  unfold bits
  rw [BitVec.ofInt_natCast, BitVec.ofNat_toNat, BitVec.setWidth_eq]

@[simp] theorem bits_bitAnd (x y : Int) : bits (bitAnd x y) = bits x &&& bits y := BitVec.ofInt_toInt
@[simp] theorem bits_bitOr (x y : Int) : bits (bitOr x y) = bits x ||| bits y := BitVec.ofInt_toInt
@[simp] theorem bits_bitXor (x y : Int) : bits (bitXor x y) = bits x ^^^ bits y := BitVec.ofInt_toInt
@[simp] theorem bits_bitNot (x : Int) : bits (bitNot x) = ~~~bits x := BitVec.ofInt_toInt
@[simp] theorem bits_shiftLeft (x : Int) (k : Nat) : bits (shiftLeft x k) = bits x <<< k := BitVec.ofInt_toInt
@[simp] theorem bits_shiftRight (x : Int) (k : Nat) : bits (shiftRight x k) = bits x >>> k := bits_toNat _
@[simp] theorem bits_uint32 (x : Int) : bits (uint32 x) = bits x := bits_toNat _
@[simp] theorem bits_load (w : UInt32) : bits (load w) = w.toBitVec := bits_toNat w.toBitVec
@[simp] theorem toBitVec_store (x : Int) : (store x).toBitVec = bits x := rfl
@[simp] theorem bits_add (x y : Int) : bits (x + y) = bits x + bits y := BitVec.ofInt_add x y

/-- **A rotation**, signed and unsigned halves mixed. -/
@[simp] theorem bits_rotate (x : Int) {k : Nat} (hk : k < 32) :
    bits (bitOr (shiftLeft x k) (shiftRight x (32 - k))) = (bits x).rotateLeft k := by
  rw [bits_bitOr, bits_shiftLeft, bits_shiftRight, BitVec.rotateLeft_def, Nat.mod_eq_of_lt hk]

end Bitwise32
