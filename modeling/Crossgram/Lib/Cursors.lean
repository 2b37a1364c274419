import Mathlib.Logic.Basic
/-!
# Cursors — a log read in order, with a stored position

A reader handles the positions of a log one after another and stores the last one it is done with.  `Below done n`: it is
done with every position before `n`; `Upto done c`: with every position up to the stored one.
-/
namespace Cursors

def Below (done : Nat → Prop) (n : Nat) : Prop := ∀ i, i < n → done i

def Upto (done : Nat → Prop) (cursor : Option Nat) : Prop := ∀ e, cursor = some e → ∀ i, i ≤ e → done i

def next : Option Nat → Nat
  | none   => 0
  | some e => e + 1

variable {done done' : Nat → Prop} {cursor : Option Nat} {n : Nat}

theorem Below.mono (h : ∀ i, done i → done' i) (hb : Below done n) : Below done' n := fun i hi => h i (hb i hi)

theorem Upto.mono (h : ∀ i, done i → done' i) (hu : Upto done cursor) : Upto done' cursor :=
  fun e he i hi => h i (hu e he i hi)

theorem Below.succ (hb : Below done n) (hn : done n) : Below done (n + 1) := by
  intro i hi
  rcases Nat.lt_succ_iff_lt_or_eq.1 hi with hi | rfl
  · exact hb i hi
  · exact hn

theorem upto_none : Upto done none := fun _ h => by cases h

theorem upto_some (hb : Below done (n + 1)) : Upto done (some n) := by
  intro e he i hi
  cases he
  exact hb i (Nat.lt_succ_of_le hi)

theorem below_next (hu : Upto done cursor) : Below done (next cursor) := by
  intro i hi
  cases cursor with
  | none => cases hi
  | some e => exact hu e rfl i (Nat.le_of_lt_succ hi)

end Cursors
