import Mathlib.Data.List.Nodup
/-!
# Relay — passing on what is fetched until it is acknowledged

Things are pushed under fresh keys and popped from the front once acknowledged.  A reader fetches the first that is not
popped, passes it on unless its key was seen, and forgets a key only after the pop.  So what is passed on is what was pushed,
once each and in order, up to some point.
-/

structure Relay (κ α : Type) where
  pushed : List (κ × α)
  popped : Nat
  seen : List κ
  passed : List α

namespace Relay

open List

variable {κ α : Type}

structure Inv (r : Relay κ α) : Prop where
  nodup : (r.pushed.map Prod.fst).Nodup
  passed : r.passed = (r.pushed.take r.passed.length).map Prod.snd
  popped_le : r.popped ≤ r.passed.length
  le_popped : r.passed.length ≤ r.popped + 1
  unseen : ∀ p ∈ r.pushed.drop r.passed.length, p.1 ∉ r.seen
  seen : ∀ p, r.pushed[r.popped]? = some p → r.popped < r.passed.length → p.1 ∈ r.seen

variable {r : Relay κ α} {k : κ} {a : α}

theorem Inv.passed_le (h : Inv r) : r.passed.length ≤ r.pushed.length := by
  have hlen := congrArg List.length h.passed
  rw [length_map, length_take] at hlen
  omega

/-- **What was passed on is a prefix of what was pushed.** -/
theorem Inv.passed_upTo (h : Inv r) : r.passed <+: r.pushed.map Prod.snd := by
  have htake : (r.pushed.take r.passed.length).map Prod.snd <+: r.pushed.map Prod.snd :=
    List.IsPrefix.map Prod.snd ⟨_, take_append_drop r.passed.length r.pushed⟩
  rw [← h.passed] at htake
  exact htake

theorem Inv.split (h : Inv r) : ∃ done, r.pushed.map Prod.snd = done ++ (r.pushed.drop r.popped).map Prod.snd ∧
    done <+: r.passed := by
  refine ⟨(r.pushed.take r.popped).map Prod.snd, ?_, ?_⟩
  · rw [← map_append, take_append_drop]
  · rw [h.passed]
    exact (take_prefix_take_left h.popped_le).map Prod.snd

theorem Inv.push (h : Inv r) (hfresh : k ∉ r.pushed.map Prod.fst) (hunseen : k ∉ r.seen) :
    Inv { r with pushed := r.pushed ++ [(k, a)] } := by
  have hle := h.passed_le
  refine ⟨?_, ?_, h.popped_le, h.le_popped, fun p hp => ?_, fun p hp hlt => ?_⟩
  · rw [map_append]
    exact nodup_append.2 ⟨h.nodup, nodup_singleton _, fun x hx y hy => by
      rw [mem_singleton.1 hy]
      rintro rfl
      exact hfresh hx⟩
  · dsimp only
    rw [take_append_of_le_length hle]
    exact h.passed
  · dsimp only at hp
    rw [drop_append_of_le_length hle] at hp
    rcases mem_append.1 hp with hp | hp
    · exact h.unseen p hp
    · rw [mem_singleton.1 hp]
      exact hunseen
  · dsimp only at hp hlt
    rw [getElem?_append_left (by omega)] at hp
    exact h.seen p hp hlt

theorem Inv.pass (h : Inv r) (hhead : r.pushed[r.popped]? = some (k, a)) (hunseen : k ∉ r.seen) :
    Inv { r with seen := k :: r.seen, passed := r.passed ++ [a] } := by
  have hlen : r.passed.length = r.popped := by
    refine Nat.le_antisymm (Nat.not_lt.1 (fun hlt => hunseen (h.seen _ hhead hlt))) h.popped_le
  obtain ⟨hlt, hget⟩ := List.getElem?_eq_some_iff.1 hhead
  have hdrop : r.pushed.drop r.popped = (k, a) :: r.pushed.drop (r.popped + 1) := by
    rw [List.drop_eq_getElem_cons hlt, hget]
  refine ⟨h.nodup, ?_, ?_, ?_, fun p hp => ?_, fun p hp _ => ?_⟩
  · dsimp only
    rw [length_append, length_singleton, take_add_one, map_append, ← h.passed, hlen, hhead,
      Option.toList_some, map_singleton]
  · dsimp only
    rw [length_append, hlen]
    exact Nat.le_add_right _ _
  · dsimp only
    exact Nat.le_of_eq (by rw [length_append, length_singleton, hlen])
  · dsimp only at hp
    rw [length_append, length_singleton, hlen] at hp
    have hold := h.unseen p (by rw [hlen, hdrop]; exact mem_cons_of_mem _ hp)
    intro hmem
    rcases mem_cons.1 hmem with heq | hmem
    · have hnodup := (nodup_append.1 (by
        rw [← map_append, take_append_drop]
        exact h.nodup : ((r.pushed.take r.popped).map Prod.fst ++ (r.pushed.drop r.popped).map Prod.fst).Nodup)).2.1
      rw [hdrop, map_cons, nodup_cons] at hnodup
      have hmem : p.1 ∈ (r.pushed.drop (r.popped + 1)).map Prod.fst := mem_map_of_mem hp
      exact hnodup.1 (heq ▸ hmem)
    · exact hold hmem
  · dsimp only at hp
    rw [hhead] at hp
    cases hp
    exact mem_cons_self

theorem Inv.pop (h : Inv r) (hlt : r.popped < r.passed.length) : Inv { r with popped := r.popped + 1 } := by
  refine ⟨h.nodup, h.passed, hlt, Nat.le_succ_of_le h.le_popped, h.unseen, fun p hp hlt' => ?_⟩
  have hle := h.le_popped
  dsimp only at hlt'
  omega

theorem Inv.forget [DecidableEq κ] (h : Inv r) (hgone : k ∉ (r.pushed.drop r.popped).map Prod.fst) :
    Inv { r with seen := r.seen.erase k } := by
  refine ⟨h.nodup, h.passed, h.popped_le, h.le_popped, fun p hp hmem => h.unseen p hp (mem_of_mem_erase hmem),
    fun p hp hlt => ?_⟩
  refine (mem_erase_of_ne ?_).2 (h.seen p hp hlt)
  rintro rfl
  refine hgone (mem_map_of_mem (mem_of_getElem? (i := 0) ?_))
  rw [getElem?_drop, Nat.add_zero]
  exact hp

theorem Inv.see (h : Inv r) (hnever : k ∉ r.pushed.map Prod.fst) : Inv { r with seen := k :: r.seen } := by
  refine ⟨h.nodup, h.passed, h.popped_le, h.le_popped, fun p hp hmem => ?_, fun p hp hlt => mem_cons_of_mem _ (h.seen p hp hlt)⟩
  rcases mem_cons.1 hmem with heq | hmem
  · exact hnever (heq ▸ mem_map_of_mem (mem_of_mem_drop hp))
  · exact h.unseen p hp hmem

end Relay
