import Mathlib.Data.List.Nodup
import Mathlib.Data.List.TakeWhile
/-!
# Backwards — a list read from its end, one page before another

The elements have distinct keys.  `pageBefore` is the page that ends where a key stands.  Whichever element of a page the
next one is asked before, fewer elements precede it (`length_preceding_lt`), and what precedes the key is in the page or
precedes that element (`mem_page_or_preceding`).
-/
namespace Backwards

open List

variable {α κ : Type} [DecidableEq κ] (key : α → κ)

def preceding (l : List α) (x : κ) : List α := l.takeWhile (fun y => decide (key y ≠ x))

/-- The last `n` of it. -/
def pageBefore (l : List α) (x : κ) (n : Nat) : List α := (preceding key l x).drop ((preceding key l x).length - n)

variable {key} {l : List α} {x : κ} {y z : α} {n : Nat}

theorem mem_preceding_of_mem_page (h : y ∈ pageBefore key l x n) : y ∈ preceding key l x := mem_of_mem_drop h

theorem key_ne_of_mem_preceding (h : y ∈ preceding key l x) : key y ≠ x := by
  have hkey := mem_takeWhile_imp h
  exact of_decide_eq_true hkey

theorem mem_of_mem_preceding (h : y ∈ preceding key l x) : y ∈ l := (takeWhile_sublist _).subset h

theorem page_eq_nil_iff (hn : 1 ≤ n) : pageBefore key l x n = [] ↔ preceding key l x = [] := by
  unfold pageBefore
  rw [drop_eq_nil_iff]
  constructor
  · intro h
    apply eq_nil_of_length_eq_zero
    omega
  · intro h
    rw [h]
    exact Nat.zero_le _

theorem preceding_of_split (hnodup : (l.map key).Nodup) {before behind : List α}
    (h : preceding key l x = before ++ z :: behind) : preceding key l (key z) = before := by
  have hl : l = before ++ z :: (behind ++ l.dropWhile (fun y => decide (key y ≠ x))) := by
    conv => lhs; rw [← takeWhile_append_dropWhile (p := fun y => decide (key y ≠ x)) (l := l)]
    rw [show l.takeWhile (fun y => decide (key y ≠ x)) = before ++ z :: behind from h, append_assoc, cons_append]
  generalize l.dropWhile (fun y => decide (key y ≠ x)) = rest at hl
  rw [hl, map_append, map_cons, nodup_append] at hnodup
  have hbefore : ∀ y ∈ before, decide (key y ≠ key z) = true := fun y hy =>
    decide_eq_true (hnodup.2.2 _ (mem_map_of_mem hy) _ mem_cons_self)
  unfold preceding
  rw [hl, takeWhile_append_of_pos hbefore, takeWhile_cons_of_neg (by simp), append_nil]

/-- **Fewer elements precede what precedes the key.** -/
theorem length_preceding_lt (hnodup : (l.map key).Nodup) (h : z ∈ preceding key l x) :
    (preceding key l (key z)).length < (preceding key l x).length := by
  obtain ⟨before, behind, hsplit⟩ := append_of_mem h
  rw [preceding_of_split hnodup hsplit, hsplit, length_append, length_cons]
  omega

theorem preceding_subset (hnodup : (l.map key).Nodup) (h : z ∈ preceding key l x) (hy : y ∈ preceding key l (key z)) :
    y ∈ preceding key l x := by
  obtain ⟨before, behind, hsplit⟩ := append_of_mem h
  rw [preceding_of_split hnodup hsplit] at hy
  rw [hsplit]
  exact mem_append_left _ hy

/-- **Nothing is passed over**, whichever element of the page the next one is asked before. -/
theorem mem_page_or_preceding (hnodup : (l.map key).Nodup) (hz : z ∈ pageBefore key l x n) (hy : y ∈ preceding key l x) :
    y ∈ pageBefore key l x n ∨ y ∈ preceding key l (key z) := by
  have hpage := take_append_drop ((preceding key l x).length - n) (preceding key l x)
  obtain ⟨before, behind, hsplit⟩ := append_of_mem hz
  rw [show (preceding key l x).drop ((preceding key l x).length - n) = before ++ z :: behind from hsplit,
    ← append_assoc] at hpage
  rw [preceding_of_split hnodup hpage.symm, hsplit]
  rw [← hpage, append_assoc, mem_append] at hy
  rcases hy with hy | hy
  · exact .inr (mem_append_left _ hy)
  · exact .inl hy

end Backwards
