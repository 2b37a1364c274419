import Mathlib.Data.List.Pairwise
import Mathlib.Data.List.Sort
/-!
# Windows — the first `n` rows of a query in its order

`window r n l` sorts `l` by `r` (stably) and keeps the first `n`, as `ORDER BY … LIMIT n` does.  A row left out of a
window is at or after every row in it, and the window is then full (`window_left_out`).
-/
namespace Windows

open List

theorem rel_or_rel_of_mem {α : Type} {R : α → α → Prop} {l : List α} {a b : α} (h : l.Pairwise R) (ha : a ∈ l)
    (hb : b ∈ l) (hne : a ≠ b) : R a b ∨ R b a := by
  have : Std.Symm (fun x y => R x y ∨ R y x) := ⟨fun _ _ => Or.symm⟩
  have hsymm : l.Pairwise (fun x y => R x y ∨ R y x) := h.imp Or.inl
  exact hsymm.forall ha hb hne

variable {α : Type} (r : α → α → Prop) [DecidableRel r]

def window (n : Nat) (l : List α) : List α := (l.insertionSort r).take n

theorem window_sublist (n : Nat) (l : List α) : List.Sublist (window r n l) (l.insertionSort r) :=
  take_sublist _ _

variable {r}

theorem mem_of_mem_window {n : Nat} {l : List α} {x : α} (h : x ∈ window r n l) : x ∈ l :=
  (mem_insertionSort r).1 ((window_sublist r n l).subset h)

theorem length_window_le (n : Nat) (l : List α) : (window r n l).length ≤ n := by
  simp [window]

theorem window_eq_nil {n : Nat} (hn : 0 < n) {l : List α} : window r n l = [] ↔ l = [] := by
  rw [window, take_eq_nil_iff, ← length_eq_zero_iff, ← length_eq_zero_iff (l := l),
    length_insertionSort]
  omega

section Order

variable [Std.Total r] [IsTrans α r]

theorem pairwise_window (n : Nat) (l : List α) : (window r n l).Pairwise r :=
  (pairwise_insertionSort r l).sublist (window_sublist r n l)

/-- **A row left out of a window**: the window is full, and the row is at or after every row in it. -/
theorem window_left_out {n : Nat} {l : List α} {x : α} (hx : x ∈ l) (hout : x ∉ window r n l) :
    (window r n l).length = n ∧ ∀ y ∈ window r n l, r y x := by
  have hs : x ∈ l.insertionSort r := (mem_insertionSort r).2 hx
  have hsplit : l.insertionSort r = window r n l ++ (l.insertionSort r).drop n := (take_append_drop n _).symm
  have hdrop : x ∈ (l.insertionSort r).drop n := by
    rw [hsplit] at hs
    exact (mem_append.1 hs).resolve_left hout
  refine ⟨?_, fun y hy => ?_⟩
  · have : (l.insertionSort r).drop n ≠ [] := ne_nil_of_mem hdrop
    have hlt : n < (l.insertionSort r).length := by
      by_contra hge
      exact this (drop_eq_nil_of_le (by omega))
    simp only [window, length_take]
    omega
  · have hpw := pairwise_insertionSort r l
    rw [hsplit] at hpw
    exact (pairwise_append.1 hpw).2.2 y hy x hdrop

theorem few_of_mem_window {n : Nat} {l : List α} {x : α} (hx : x ∈ window r n l) :
    (l.filter (fun y => ¬r x y)).length < n := by
  have hsorted : (l.insertionSort r).Pairwise r := pairwise_insertionSort r l
  obtain ⟨before, after, hsplit⟩ := append_of_mem hx
  have hlength : before.length < n := by
    have hle := length_window_le (r := r) n l
    rw [hsplit, length_append, length_cons] at hle
    omega
  have hwhole : l.insertionSort r = before ++ x :: (after ++ (l.insertionSort r).drop n) := by
    rw [← cons_append, ← append_assoc, ← hsplit]
    exact (take_append_drop n _).symm
  have hperm : (l.filter (fun y => ¬r x y)).Perm ((l.insertionSort r).filter (fun y => ¬r x y)) :=
    (perm_insertionSort r l).symm.filter _
  rw [hwhole] at hsorted
  have hrest : (x :: (after ++ (l.insertionSort r).drop n)).filter (fun y => ¬r x y) = [] := by
    refine filter_eq_nil_iff.2 (fun y hy => ?_)
    rcases mem_cons.1 hy with rfl | hy
    · simpa using (Std.Total.total y y).elim id id
    · simpa using rel_of_pairwise_cons (pairwise_append.1 hsorted).2.1 hy
  rw [hperm.length_eq, hwhole, filter_append, hrest, append_nil]
  exact (length_filter_le _ _).trans_lt hlength

/-- **The first of the rows at its place is in the window** when fewer than `n` rows are before that place. -/
theorem mem_window_of_few {n : Nat} {l before after : List α} {x : α} (hnodup : l.Nodup) (hsplit : l = before ++ x :: after)
    (hfirst : ∀ y ∈ before, ¬(r x y ∧ r y x)) (hfew : (l.filter (fun y => ¬r x y)).length < n) : x ∈ window r n l := by
  have hx : x ∈ l := by rw [hsplit]; exact mem_append_right _ mem_cons_self
  by_contra hout
  obtain ⟨hfull, hleft⟩ := window_left_out hx hout
  have hsort : window r n l ++ (l.insertionSort r).drop n = l.insertionSort r := take_append_drop n _
  have hsnodup : (l.insertionSort r).Nodup := (perm_insertionSort r l).nodup_iff.2 hnodup
  have hdrop : x ∈ (l.insertionSort r).drop n := by
    have hs : x ∈ window r n l ++ (l.insertionSort r).drop n := by rw [hsort]; exact (mem_insertionSort r).2 hx
    exact (mem_append.1 hs).resolve_left hout
  have hstrict : ∀ y ∈ window r n l, ¬r x y := by
    intro y hy hxy
    have hne : y ≠ x := fun h => hout (h ▸ hy)
    have hyl : y ∈ before ∨ y ∈ after := by
      have hyl := mem_of_mem_window hy
      rw [hsplit] at hyl
      rcases mem_append.1 hyl with h | h
      · exact Or.inl h
      · exact Or.inr ((mem_cons.1 h).resolve_left hne)
    rcases hyl with hyl | hyl
    · exact hfirst y hyl ⟨hxy, hleft y hy⟩
    · -- sorting keeps the two in their order, so the later one cannot be in the window without the earlier
      have hpair : [x, y].Sublist l := by
        rw [hsplit]
        exact List.Sublist.trans ((singleton_sublist.2 hyl).cons_cons x) (sublist_append_right _ _)
      have hsorted : [x, y].Sublist (window r n l ++ (l.insertionSort r).drop n) := by
        rw [hsort]
        exact pair_sublist_insertionSort hxy hpair
      rw [← hsort] at hsnodup
      obtain ⟨l₁, l₂, heq, h₁, h₂⟩ := sublist_append_iff.1 hsorted
      have hdisjoint := (nodup_append.1 hsnodup).2.2
      cases l₁ with
      | nil =>
        have hy₂ : y ∈ l₂ := by
          rw [nil_append] at heq
          rw [← heq]
          exact mem_cons_of_mem _ mem_cons_self
        exact hdisjoint y hy y (h₂.subset hy₂) rfl
      | cons a l₁ =>
        obtain ⟨rfl, -⟩ := List.cons.inj heq
        exact hout (h₁.subset mem_cons_self)
  have hperm : (l.filter (fun y => ¬r x y)).Perm ((l.insertionSort r).filter (fun y => ¬r x y)) :=
    (perm_insertionSort r l).symm.filter _
  have hkept : (window r n l).filter (fun y => ¬r x y) = window r n l :=
    filter_eq_self.2 (fun y hy => by simpa using hstrict y hy)
  rw [hperm.length_eq, ← hsort, filter_append, hkept, length_append, hfull] at hfew
  omega

end Order

end Windows
