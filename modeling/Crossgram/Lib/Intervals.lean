import Mathlib.Data.List.Basic
/-!
# Intervals — half-open intervals laid end to end

An interval is written `(b, n)` and means `(b - n, b]`.  `Tiles lo l hi` says that the intervals of `l`, in order, cover
`(lo, hi]` without gap or overlap.  An interval that meets no tile but an equal one, and lies inside, is one of the
tiles (`Tiles.mem_of_inside`).
-/
namespace Intervals

/-- `l`, in order, covers `(lo, hi]`: each interval starts where the one before it ends. -/
def Tiles : Int → List (Int × Nat) → Int → Prop
  | lo, [],          hi => lo = hi
  | lo, (b, n) :: l, hi => b - n = lo ∧ Tiles b l hi

instance decidableTiles : ∀ (lo : Int) (l : List (Int × Nat)) (hi : Int), Decidable (Tiles lo l hi)
  | lo, [],          hi => inferInstanceAs (Decidable (lo = hi))
  | lo, (b, n) :: l, hi => @instDecidableAnd (b - n = lo) (Tiles b l hi) _ (decidableTiles b l hi)

@[simp] theorem tiles_nil {lo hi : Int} : Tiles lo [] hi ↔ lo = hi := Iff.rfl

@[simp] theorem tiles_cons {lo b hi : Int} {n : Nat} {l : List (Int × Nat)} :
    Tiles lo ((b, n) :: l) hi ↔ b - n = lo ∧ Tiles b l hi := Iff.rfl

theorem tiles_append : ∀ {lo hi : Int} {l r : List (Int × Nat)},
    Tiles lo (l ++ r) hi ↔ ∃ mid, Tiles lo l mid ∧ Tiles mid r hi
  | lo, hi, [], r => by simp
  | lo, hi, (b, n) :: l, r => by
    rw [List.cons_append, tiles_cons, tiles_append]
    constructor
    · rintro ⟨hb, mid, hl, hr⟩
      exact ⟨mid, ⟨hb, hl⟩, hr⟩
    · rintro ⟨mid, ⟨hb, hl⟩, hr⟩
      exact ⟨hb, mid, hl, hr⟩

theorem Tiles.end_unique : ∀ {lo hi hi' : Int} {l : List (Int × Nat)}, Tiles lo l hi → Tiles lo l hi' → hi = hi'
  | _, _, _, [], h, h' => by rw [tiles_nil] at h h'; omega
  | _, _, _, (_, _) :: _, h, h' => Tiles.end_unique h.2 h'.2

theorem Tiles.exists_mem : ∀ {lo hi : Int} {l : List (Int × Nat)}, Tiles lo l hi →
    ∀ x, lo < x → x ≤ hi → ∃ t ∈ l, t.1 - t.2 < x ∧ x ≤ t.1
  | _, _, [], h, x, h1, h2 => by rw [tiles_nil] at h; omega
  | lo, hi, (b, n) :: l, h, x, h1, h2 => by
    by_cases hx : x ≤ b
    · exact ⟨(b, n), List.mem_cons_self, by have := h.1; simp only; omega, hx⟩
    · obtain ⟨t, ht, hlt, hle⟩ := Tiles.exists_mem h.2 x (by omega) h2
      exact ⟨t, List.mem_cons_of_mem _ ht, hlt, hle⟩

def Apart (s t : Int × Nat) : Prop := s.1 ≤ t.1 - t.2 ∨ t.1 ≤ s.1 - s.2

/-- **A non-empty interval inside the covered range that is apart from every tile it does not equal is a tile.** -/
theorem Tiles.mem_of_inside {lo hi : Int} {l : List (Int × Nat)} (h : Tiles lo l hi) {s : Int × Nat}
    (hpos : 0 < s.2) (hlo : lo ≤ s.1 - s.2) (hhi : s.1 ≤ hi) (hap : ∀ t ∈ l, t ≠ s → Apart s t) : s ∈ l := by
  obtain ⟨t, ht, hlt, hle⟩ := h.exists_mem s.1 (by omega) hhi
  by_cases hts : t = s
  · exact hts ▸ ht
  · rcases hap t ht hts with h1 | h1
    · omega
    · omega

end Intervals
