import Mathlib.Data.List.Basic
import Mathlib.Logic.Function.Basic
/-!
# Handover — one holder after the other

Contenders queue up, newest first.  One that comes while another holds waits for that one; one that has waited until its
predecessor was over goes on.  Whoever no longer waits is alone: all before it are over.
-/
namespace Handover

open List

variable {ι : Type*}

/-- The queue, newest first: `waits i` is whom `i` waits for, `gone j` says that `j` is done for good. -/
structure Ordered (order : List ι) (waits : ι → Option ι) (gone : ι → Prop) : Prop where
  nodup : order.Nodup
  behind : ∀ i p, waits i = some p → ∃ xs ys, order = xs ++ i :: p :: ys
  passed : ∀ xs i ys, order = xs ++ i :: ys → waits i = none → ∀ j ∈ ys, gone j

variable {order : List ι} {waits waits' : ι → Option ι} {gone gone' : ι → Prop} {i p : ι}

theorem ordered_nil : Ordered ([] : List ι) (fun _ => none) gone where
  nodup := nodup_nil
  behind := fun _ _ h => by cases h
  passed := fun xs _ _ h => absurd h.symm (append_ne_nil_of_right_ne_nil xs (cons_ne_nil _ _))

theorem Ordered.split_unique (h : Ordered order waits gone) {xs ys xs' ys' : List ι} (hs : order = xs ++ i :: ys)
    (hs' : order = xs' ++ i :: ys') : ys = ys' := by
  have hnodup := h.nodup
  rw [hs] at hnodup
  obtain ⟨-, hys, hxs⟩ := nodup_append.1 hnodup
  have hnot : i ∉ xs := fun hi => hxs i hi i mem_cons_self rfl
  have hnot' : i ∉ ys := (nodup_cons.1 hys).1
  exact ((append_cons_inj_of_notMem hnot hnot').1 (hs.symm.trans hs')).2.2

/-- **The one whose predecessor is over is alone.** -/
theorem Ordered.alone_after (h : Ordered order waits gone) (hi : waits i = some p) (hp : waits p = none) (hover : gone p)
    {xs ys : List ι} (hs : order = xs ++ i :: ys) : ∀ j ∈ ys, gone j := by
  obtain ⟨xs', ys', hs'⟩ := h.behind i p hi
  obtain rfl : ys = p :: ys' := h.split_unique hs hs'
  intro j hj
  rcases mem_cons.1 hj with rfl | hj
  · exact hover
  · refine h.passed (xs ++ [i]) p ys' ?_ hp j hj
    rw [hs, append_assoc]
    rfl

/-- **Not all wait for one that waits**: somewhere behind, a predecessor waits for nobody. -/
theorem Ordered.exists_next (h : Ordered order waits gone) : ∀ {ys xs : List ι} {i p : ι}, order = xs ++ i :: ys →
    waits i = some p → ∃ j q, waits j = some q ∧ waits q = none
  | [], _, i, p, hs, hi => by
    obtain ⟨_, _, hs'⟩ := h.behind i p hi
    cases h.split_unique hs hs'
  | y :: ys, xs, i, p, hs, hi => by
    obtain ⟨_, _, hs'⟩ := h.behind i p hi
    obtain ⟨rfl, -⟩ := List.cons.inj (h.split_unique hs hs')
    cases hy : waits y with
    | none => exact ⟨i, y, hi, hy⟩
    | some r => exact h.exists_next (by rw [hs, append_cons]) hy

/-- **The queue stays ordered** when what is over stays over, and only those go on whose predecessor is over. -/
theorem Ordered.step (h : Ordered order waits gone) (hover : ∀ j ∈ order, gone j → gone' j)
    (hwaits : ∀ j ∈ order, waits' j = waits j ∨
      (waits' j = none ∧ ∃ p, waits j = some p ∧ waits p = none ∧ gone p))
    (hin : ∀ j p, waits' j = some p → j ∈ order) : Ordered order waits' gone' := by
  refine ⟨h.nodup, fun i p hi => ?_, fun xs i ys hs hi j hj => ?_⟩
  · rcases hwaits i (hin i p hi) with heq | ⟨hnone, -⟩
    · exact h.behind i p (heq.symm.trans hi)
    · rw [hnone] at hi
      cases hi
  · have hjin : j ∈ order := hs ▸ mem_append_right xs (mem_cons_of_mem i hj)
    refine hover j hjin ?_
    rcases hwaits i (hs ▸ mem_append_right xs mem_cons_self) with heq | ⟨-, p, hp, hnone, hoverp⟩
    · exact h.passed xs i ys hs (heq.symm.trans hi) j hj
    · exact h.alone_after hp hnone hoverp hs j hj

theorem Ordered.push (h : Ordered order waits gone) (hi : i ∉ order) (hover : ∀ j ∈ order, gone j → gone' j)
    (hwaits : ∀ j ∈ order, waits' j = waits j) (hin : ∀ j p, waits' j = some p → j ∈ i :: order)
    (hnew : (∃ p ys, order = p :: ys ∧ waits' i = some p) ∨ (waits' i = none ∧ ∀ j ∈ order, gone j)) :
    Ordered (i :: order) waits' gone' := by
  refine ⟨nodup_cons.2 ⟨hi, h.nodup⟩, fun j p hj => ?_, fun xs j ys hs hj k hk => ?_⟩
  · rcases mem_cons.1 (hin j p hj) with rfl | hjin
    · rcases hnew with ⟨p', ys, rfl, hp'⟩ | ⟨hnone, -⟩
      · obtain rfl : p' = p := Option.some.inj (hp'.symm.trans hj)
        exact ⟨[], ys, rfl⟩
      · rw [hnone] at hj
        cases hj
    · obtain ⟨xs, ys, hs⟩ := h.behind j p ((hwaits j hjin).symm.trans hj)
      exact ⟨i :: xs, ys, by rw [hs]; rfl⟩
  · cases xs with
    | nil =>
      obtain ⟨rfl, rfl⟩ := List.cons.inj hs
      rcases hnew with ⟨p, ys, -, hp⟩ | ⟨-, hall⟩
      · rw [hp] at hj
        cases hj
      · exact hover k hk (hall k hk)
    | cons x xs =>
      have hrest : order = xs ++ j :: ys := (List.cons.inj hs).2
      have hjin : j ∈ order := hrest ▸ mem_append_right xs mem_cons_self
      have hkin : k ∈ order := hrest ▸ mem_append_right xs (mem_cons_of_mem j hk)
      exact hover k hkin (h.passed xs j ys hrest ((hwaits j hjin).symm.trans hj) k hk)

end Handover
