import Crossgram.Lib.Endian
import Crossgram.Lib.Framing
/-!
# Sha1 — the hash of FIPS 180-4

A message is cut into blocks of 64 bytes, and each takes the chaining value to the next one (`compress`).  `chain` is the
value behind the blocks that are there; the digest is the one behind the padded message.  What arrives in pieces is chained
from the value behind the first, over the bytes that did not fill a block (`chain_append`).
-/
namespace Sha1

open List

structure Chain where
  a : BitVec 32
  b : BitVec 32
  c : BitVec 32
  d : BitVec 32
  e : BitVec 32

def initial : Chain := ⟨0x67452301, 0xefcdab89, 0x98badcfe, 0x10325476, 0xc3d2e1f0⟩

def ch (x y z : BitVec 32) : BitVec 32 := (x &&& y) ^^^ (~~~x &&& z)

def parity (x y z : BitVec 32) : BitVec 32 := x ^^^ y ^^^ z

def maj (x y z : BitVec 32) : BitVec 32 := (x &&& y) ^^^ (x &&& z) ^^^ (y &&& z)

def f (t : Nat) : BitVec 32 → BitVec 32 → BitVec 32 → BitVec 32 :=
  if t < 20 then ch else if t < 40 then parity else if t < 60 then maj else parity

def k (t : Nat) : BitVec 32 :=
  if t < 20 then 0x5a827999 else if t < 40 then 0x6ed9eba1 else if t < 60 then 0x8f1bbcdc else 0xca62c1d6

/-- The word at `offset` of a block, the most significant byte first. -/
def word (block : List UInt8) (offset : Nat) : BitVec 32 := BitVec.ofNat 32 (Endian.value ((block.drop offset).take 4))

/-- The next word of the schedule behind `words`. -/
def nextWord (block : List UInt8) (words : List (BitVec 32)) : BitVec 32 :=
  let t := words.length
  if t < 16 then word block (t * 4)
  else (words.getD (t - 3) 0 ^^^ words.getD (t - 8) 0 ^^^ words.getD (t - 14) 0 ^^^ words.getD (t - 16) 0).rotateLeft 1

/-- The first `n` words of the schedule. -/
def schedule (block : List UInt8) : Nat → List (BitVec 32)
  | 0     => []
  | n + 1 =>
    let words := schedule block n
    words ++ [nextWord block words]

def round (words : List (BitVec 32)) (v : Chain) (t : Nat) : Chain :=
  ⟨v.a.rotateLeft 5 + f t v.b v.c v.d + v.e + k t + words.getD t 0, v.a, v.b.rotateLeft 30, v.c, v.d⟩

def Chain.add (v w : Chain) : Chain := ⟨v.a + w.a, v.b + w.b, v.c + w.c, v.d + w.d, v.e + w.e⟩

def compress (h : Chain) (block : List UInt8) : Chain :=
  h.add ((List.range 80).foldl (round (schedule block 80)) h)

def block (xs : List UInt8) : Framing.Outcome (List UInt8) :=
  if xs.length < 64 then .incomplete else .frame (xs.take 64) 64

def chainFrom (h : Chain) (xs : List UInt8) : Chain := (Framing.frames block xs).foldl compress h

def chain (xs : List UInt8) : Chain := chainFrom initial xs

def carry (xs : List UInt8) : List UInt8 := Framing.rest block xs

def padding (length : Nat) : List UInt8 := 0x80 :: List.replicate ((119 - length % 64) % 64) 0 ++ Endian.big 8 (8 * length)

def Chain.big (v : Chain) : List UInt8 := [v.a, v.b, v.c, v.d, v.e].flatMap (fun w => Endian.big 4 w.toNat)

def Chain.little (v : Chain) : List UInt8 := [v.a, v.b, v.c, v.d, v.e].flatMap (fun w => (Endian.big 4 w.toNat).reverse)

def digest (message : List UInt8) : List UInt8 := (chain (message ++ padding message.length)).big

/-! ## With `or` -/

theorem ch_eq_or (x y z : BitVec 32) : ch x y z = (x &&& y) ||| (~~~x &&& z) := by
  apply BitVec.eq_of_getElem_eq
  intro i hi
  unfold ch
  rw [BitVec.getElem_xor, BitVec.getElem_or, BitVec.getElem_and, BitVec.getElem_and, BitVec.getElem_not]
  cases x[i] <;> cases y[i] <;> cases z[i] <;> rfl

theorem maj_eq_or (x y z : BitVec 32) : maj x y z = (x &&& y) ||| (x &&& z) ||| (y &&& z) := by
  apply BitVec.eq_of_getElem_eq
  intro i hi
  unfold maj
  rw [BitVec.getElem_xor, BitVec.getElem_xor, BitVec.getElem_or, BitVec.getElem_or, BitVec.getElem_and, BitVec.getElem_and,
    BitVec.getElem_and]
  cases x[i] <;> cases y[i] <;> cases z[i] <;> rfl

/-! ## The schedule -/

theorem length_schedule (block : List UInt8) : ∀ n, (schedule block n).length = n
  | 0     => rfl
  | n + 1 => by
    unfold schedule
    dsimp only
    rw [length_append, length_schedule block n]
    rfl

theorem schedule_of_le (block : List UInt8) : ∀ {n}, n ≤ 16 →
    schedule block n = (List.range n).map (fun t => word block (t * 4))
  | 0,     _ => rfl
  | n + 1, h => by
    unfold schedule
    dsimp only
    unfold nextWord
    dsimp only
    rw [length_schedule, if_pos (Nat.lt_of_succ_le h), schedule_of_le block (Nat.le_of_succ_le h), range_succ, map_append]
    rfl

/-! ## Pieces -/

theorem stable_block : Framing.Stable block := by
  constructor
  · intro xs ys hd
    unfold block at hd ⊢
    by_cases hshort : xs.length < 64
    · exact absurd (if_pos hshort) hd
    · rw [if_neg hshort, if_neg (by rw [length_append]; omega), take_append_of_le_length (by omega)]
  · intro xs data size hd
    unfold block at hd
    split at hd
    · cases hd
    · cases hd
      omega

variable {xs : List UInt8}

theorem block_of_short (h : xs.length < 64) : block xs = .incomplete := if_pos h

theorem block_of_long (h : 64 ≤ xs.length) : block xs = .frame (xs.take 64) 64 := if_neg (Nat.not_lt.2 h)

theorem carry_of_short (h : xs.length < 64) : carry xs = xs :=
  Framing.rest_of_incomplete (block_of_short h)

theorem chainFrom_of_short (h : xs.length < 64) (v : Chain) : chainFrom v xs = v := by
  unfold chainFrom
  rw [Framing.frames_of_incomplete (block_of_short h), foldl_nil]

theorem chainFrom_of_long (h : 64 ≤ xs.length) (v : Chain) :
    chainFrom v xs = chainFrom (compress v (xs.take 64)) (xs.drop 64) := by
  unfold chainFrom
  rw [Framing.frames_of_frame stable_block (block_of_long h), foldl_cons]

theorem carry_of_long (h : 64 ≤ xs.length) : carry xs = carry (xs.drop 64) :=
  Framing.rest_of_frame stable_block (block_of_long h)

theorem length_carry (xs : List UInt8) : (carry xs).length = xs.length % 64 := by
  induction hn : xs.length using Nat.strongRecOn generalizing xs with
  | ind n ih =>
    by_cases hshort : xs.length < 64
    · rw [carry_of_short hshort, hn, Nat.mod_eq_of_lt (by omega)]
    · rw [carry_of_long (by omega), ih (n - 64) (by omega) (xs.drop 64) (by rw [length_drop, hn])]
      omega

/-- **The message in two pieces.** -/
theorem chain_append (xs ys : List UInt8) :
    chain (xs ++ ys) = chainFrom (chain xs) (carry xs ++ ys) ∧ carry (xs ++ ys) = carry (carry xs ++ ys) := by
  obtain ⟨hframes, hrest⟩ := Framing.frames_append stable_block _ xs ys (Nat.le_refl _)
  refine ⟨?_, hrest⟩
  unfold chain chainFrom carry
  rw [hframes, foldl_append]

end Sha1
