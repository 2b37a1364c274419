import Mathlib.Data.List.Pairwise
import Mathlib.Data.List.Sort
import Mathlib.Data.List.Range
/-!
# Cuts — a stretch of places that is cut into pieces

Places in order cut a stretch into the pieces between places that follow each other.  The pieces follow each other without
a gap, and an interval whose ends are among the places covers a piece as soon as it covers a part of it.
-/
namespace Cuts

open List

def pieces : List Nat → List (Nat × Nat)
  | a :: b :: rest => if a = b then pieces (b :: rest) else (a, b) :: pieces (b :: rest)
  | _              => []

/-- The last of the places from `a` on. -/
def lastPlace (a : Nat) (places : List Nat) : Nat := (a :: places).getLast (List.cons_ne_nil a places)

theorem lastPlace_cons (a b : Nat) (places : List Nat) : lastPlace a (b :: places) = lastPlace b places :=
  getLast_cons (cons_ne_nil b places)

theorem le_lastPlace : ∀ {a : Nat} {places : List Nat}, (a :: places).Pairwise (· ≤ ·) → a ≤ lastPlace a places
  | a, [],          _       => Nat.le_refl a
  | a, b :: places, hsorted => by
    rw [lastPlace_cons]
    rw [pairwise_cons] at hsorted
    exact Nat.le_trans (hsorted.1 b mem_cons_self) (le_lastPlace hsorted.2)

/-- **A piece** is not empty, its ends are places, and no place stands inside it. -/
theorem piece_spec : ∀ {places : List Nat}, places.Pairwise (· ≤ ·) → ∀ p ∈ pieces places,
    p.1 < p.2 ∧ p.1 ∈ places ∧ p.2 ∈ places ∧ ∀ x ∈ places, x ≤ p.1 ∨ p.2 ≤ x
  | [],             _,       p, hp => absurd hp not_mem_nil
  | [_],            _,       p, hp => absurd hp not_mem_nil
  | a :: b :: rest, hsorted, p, hp => by
    rw [pairwise_cons] at hsorted
    have hle := hsorted.1 b mem_cons_self
    have ih := piece_spec hsorted.2
    have hrest : ∀ q ∈ pieces (b :: rest), q.1 < q.2 ∧ q.1 ∈ a :: b :: rest ∧ q.2 ∈ a :: b :: rest ∧
        ∀ x ∈ a :: b :: rest, x ≤ q.1 ∨ q.2 ≤ x := by
      intro q hq
      obtain ⟨hlt, hleft, hright, hnone⟩ := ih q hq
      refine ⟨hlt, mem_cons_of_mem a hleft, mem_cons_of_mem a hright, fun x hx => ?_⟩
      rcases mem_cons.1 hx with rfl | hx
      · exact .inl (hsorted.1 q.1 hleft)
      · exact hnone x hx
    rw [pieces] at hp
    split at hp
    · exact hrest p hp
    · rename_i hne
      rcases mem_cons.1 hp with rfl | hp
      · refine ⟨Nat.lt_of_le_of_ne hle hne, mem_cons_self, mem_cons_of_mem a mem_cons_self, fun x hx => ?_⟩
        rcases mem_cons.1 hx with rfl | hx
        · exact .inl (Nat.le_refl x)
        · rcases mem_cons.1 hx with rfl | hx
          · exact .inr (Nat.le_refl x)
          · exact .inr ((pairwise_cons.1 hsorted.2).1 x hx)
      · exact hrest p hp

variable {places : List Nat}

theorem cons_of_bounds (hsorted : places.Pairwise (· ≤ ·)) {a b : Nat} (ha : a ∈ places) (hb : b ∈ places)
    (hbounds : ∀ x ∈ places, a ≤ x ∧ x ≤ b) : ∃ rest, places = a :: rest ∧ lastPlace a rest = b := by
  cases places with
  | nil             => exact absurd ha not_mem_nil
  | cons first rest =>
    have hfirst : first = a := by
      refine Nat.le_antisymm ?_ (hbounds first mem_cons_self).1
      rcases mem_cons.1 ha with heq | hrest
      · exact Nat.le_of_eq heq.symm
      · exact (pairwise_cons.1 hsorted).1 a hrest
    subst hfirst
    exact ⟨rest, rfl, Nat.le_antisymm (hbounds _ (getLast_mem _)).2 (hsorted.rel_getLast hb)⟩

theorem exists_piece : ∀ {places : List Nat} {a i : Nat}, a ≤ i → i < lastPlace a places →
    ∃ p ∈ pieces (a :: places), p.1 ≤ i ∧ i < p.2
  | [],          a, i, hle, hlt => absurd hlt (Nat.not_lt.2 hle)
  | b :: places, a, i, hle, hlt => by
    rw [lastPlace_cons] at hlt
    rw [pieces]
    by_cases hi : i < b
    · rw [if_neg (Nat.ne_of_lt (Nat.lt_of_le_of_lt hle hi))]
      exact ⟨(a, b), mem_cons_self, hle, hi⟩
    · obtain ⟨p, hp, hin⟩ := exists_piece (Nat.not_lt.1 hi) hlt
      split
      · exact ⟨p, hp, hin⟩
      · exact ⟨p, mem_cons_of_mem _ hp, hin⟩

/-- **An interval between two places** that covers a part of a piece covers all of it. -/
theorem covers_piece (hsorted : places.Pairwise (· ≤ ·)) {p : Nat × Nat} (hp : p ∈ pieces places)
    {i start stop : Nat} (hin : p.1 ≤ i ∧ i < p.2) (hstart : start ∈ places) (hstop : stop ∈ places) :
    (start ≤ p.1 ∧ p.2 ≤ stop) ↔ (start ≤ i ∧ i < stop) := by
  obtain ⟨_, _, _, hnone⟩ := piece_spec hsorted p hp
  refine ⟨fun h => ⟨Nat.le_trans h.1 hin.1, Nat.lt_of_lt_of_le hin.2 h.2⟩, fun h => ⟨?_, ?_⟩⟩
  · rcases hnone start hstart with hle | hge
    · exact hle
    · omega
  · rcases hnone stop hstop with hle | hge
    · omega
    · exact hge

theorem range'_append {β : Type} (f : Nat → β) {a b c : Nat} (hab : a ≤ b) (hbc : b ≤ c) :
    (List.range' a (b - a)).map f ++ (List.range' b (c - b)).map f = (List.range' a (c - a)).map f := by
  have hsplit := List.range'_append_1 (s := a) (m := b - a) (n := c - b)
  rw [show a + (b - a) = b by omega, show b - a + (c - b) = c - a by omega] at hsplit
  rw [← map_append, hsplit]

/-- **Place by place**, the pieces make up the stretch from the first place to the last one. -/
theorem pieces_flatMap {β : Type} (f : Nat → β) : ∀ {places : List Nat} {a : Nat}, (a :: places).Pairwise (· ≤ ·) →
    (pieces (a :: places)).flatMap (fun p => (List.range' p.1 (p.2 - p.1)).map f) =
      (List.range' a (lastPlace a places - a)).map f
  | [],          a, _       => by
    rw [pieces, flatMap_nil]
    · show [] = (List.range' a (a - a)).map f
      rw [Nat.sub_self]
      rfl
    · intro x y z h
      cases h
  | b :: places, a, hsorted => by
    rw [pairwise_cons] at hsorted
    have hab := hsorted.1 b mem_cons_self
    have ih := pieces_flatMap f hsorted.2
    rw [pieces, lastPlace_cons]
    split
    · rename_i heq
      rw [ih, heq]
    · rw [flatMap_cons, ih]
      exact range'_append f hab (le_lastPlace hsorted.2)

end Cuts
