import Mathlib.Data.List.Perm.Subperm
import Crossgram.Lib.Maps
/-!
# Recency — maps in the order of use that are kept small

A used entry goes to the end.  `trim` takes the oldest entry that may go, again and again, while there are more than
`limit`; entries that may not go stay.  An entry goes only when `limit` others stand behind it or may not go
(`limit_le_of_trimmed`), and what stands behind an entry was used since (`InOrder`).
-/
namespace Recency

open Maps List

variable {κ α : Type} [DecidableEq κ]

def touch (m : List (κ × α)) (k : κ) (v : α) : List (κ × α) := Maps.delete m k ++ [(k, v)]

def trim (limit : Nat) (evictable : α → Bool) : Nat → List (κ × α) → List (κ × α)
  | 0,        m => m
  | fuel + 1, m =>
    if m.length ≤ limit then m
    else
      match m.find? (fun e => evictable e.2) with
      | none   => m
      | some e => trim limit evictable fuel (Maps.delete m e.1)

theorem get_touch (m : List (κ × α)) (k : κ) (v : α) (k' : κ) :
    Maps.get (touch m k v) k' = if k' = k then some v else Maps.get m k' := by
  unfold touch
  rw [get_append, get_delete, get_cons]
  by_cases hk : k' = k
  · simp [hk]
  · simp [hk, Ne.symm hk]

variable {m : List (κ × α)}

theorem distinct_touch (h : Maps.Distinct m) (k : κ) (v : α) : Maps.Distinct (touch m k v) := by
  refine pairwise_append.2 ⟨h.delete k, pairwise_singleton _ _, fun e he e' he' => ?_⟩
  rw [mem_singleton.1 he']
  exact (mem_delete.1 he).2

theorem mem_touch {k : κ} {v : α} {e : κ × α} :
    e ∈ touch m k v ↔ (e ∈ m ∧ e.1 ≠ k) ∨ e = (k, v) := by
  unfold touch
  rw [mem_append, mem_delete, mem_singleton]

/-! ## Trimming -/

section

variable {limit : Nat} {evictable : α → Bool}

theorem trim_sublist : ∀ (fuel : Nat) (m : List (κ × α)), List.Sublist (trim limit evictable fuel m) m
  | 0,        m => List.Sublist.refl m
  | fuel + 1, m => by
    rw [trim]
    split
    · exact List.Sublist.refl m
    · split
      · exact List.Sublist.refl m
      · exact (trim_sublist fuel _).trans filter_sublist

/-- **What may not go stays.** -/
theorem mem_trim_of_kept : ∀ (fuel : Nat) {m : List (κ × α)} {e : κ × α}, Maps.Distinct m → e ∈ m →
    evictable e.2 = false → e ∈ trim limit evictable fuel m
  | 0,        m, e, _,  he, _     => he
  | fuel + 1, m, e, hd, he, hkept => by
    rw [trim]
    split
    · exact he
    · split
      · exact he
      · rename_i found hfind
        refine mem_trim_of_kept fuel (hd.delete _) (mem_delete.2 ⟨he, fun heq => ?_⟩) hkept
        have hevict := find?_some hfind
        have hsame : e = found := by
          have hget := get_of_mem hd (k := e.1) (v := e.2) he
          have hget' := get_of_mem hd (k := found.1) (v := found.2) (mem_of_find?_eq_some hfind)
          rw [heq, hget'] at hget
          exact Prod.ext heq (Option.some.inj hget).symm
        rw [hsame] at hkept
        rw [hkept] at hevict
        cases hevict

/-- **Trimming is done** when the rest fits or nothing more may go. -/
theorem trim_fits : ∀ (fuel : Nat) {m : List (κ × α)}, m.length ≤ fuel →
    (trim limit evictable fuel m).length ≤ limit ∨ ∀ e ∈ trim limit evictable fuel m, evictable e.2 = false
  | 0,        m, hfuel => .inl (Nat.le_trans hfuel (Nat.zero_le limit))
  | fuel + 1, m, hfuel => by
    rw [trim]
    split
    · rename_i hfits
      exact .inl hfits
    · split
      · rename_i hfind
        exact .inr (fun e he => Bool.eq_false_iff.2 (find?_eq_none.1 hfind e he))
      · rename_i found hfind
        have hmem := mem_of_find?_eq_some hfind
        have hshort : (Maps.delete m found.1).length < m.length := by
          unfold Maps.delete
          rw [length_filter_lt_length_iff_exists]
          exact ⟨found, hmem, by simp⟩
        exact trim_fits fuel (by omega)

/-- **An entry goes only when** the entries in front of it that may not go and all those behind it make up the limit. -/
theorem limit_le_of_trimmed : ∀ (fuel : Nat) {front back : List (κ × α)} {e : κ × α}, Maps.Distinct (front ++ e :: back) →
    e ∉ trim limit evictable fuel (front ++ e :: back) →
    limit ≤ (front.filter (fun x => !evictable x.2)).length + back.length
  | 0,        front, back, e, _,  hgone => absurd (mem_append_right front mem_cons_self) hgone
  | fuel + 1, front, back, e, hd, hgone => by
    rw [trim] at hgone
    split at hgone
    · exact absurd (mem_append_right front mem_cons_self) hgone
    · rename_i hlong
      rw [length_append, length_cons] at hlong
      split at hgone
      · exact absurd (mem_append_right front mem_cons_self) hgone
      · rename_i found hfind
        rw [find?_append] at hfind
        cases hfront : front.find? (fun x => evictable x.2) with
        | none   =>
          have hall : front.filter (fun x => !evictable x.2) = front := by
            refine filter_eq_self.2 (fun x hx => ?_)
            have := find?_eq_none.1 hfront x hx
            simpa using this
          rw [hall]
          omega
        | some f =>
          rw [hfront, Option.some_or] at hfind
          obtain rfl : f = found := Option.some.inj hfind
          -- An older entry goes first: it stands in front of this one.
          have hin := mem_of_find?_eq_some hfront
          have hevict := find?_some hfront
          have hapart : ∀ x ∈ e :: back, x.1 ≠ f.1 := fun x hx heq =>
            (pairwise_append.1 hd).2.2 f hin x hx heq.symm
          have hdelete : Maps.delete (front ++ e :: back) f.1 = Maps.delete front f.1 ++ e :: back := by
            unfold Maps.delete
            rw [filter_append, filter_eq_self.2 (fun x hx => decide_eq_true (hapart x hx))]
          have hsame : (Maps.delete front f.1).filter (fun x => !evictable x.2) = front.filter (fun x => !evictable x.2) := by
            unfold Maps.delete
            rw [filter_filter]
            refine filter_congr (fun x hx => ?_)
            by_cases hkey : x.1 = f.1
            · have hget := get_of_mem (pairwise_append.1 hd).1 (k := x.1) (v := x.2) hx
              have hget' := get_of_mem (pairwise_append.1 hd).1 (k := f.1) (v := f.2) hin
              rw [hkey, hget'] at hget
              rw [← Option.some.inj hget, hevict]
              rfl
            · simp [hkey]
          have hd' := hd.delete f.1
          rw [hdelete] at hgone hd'
          rw [← hsame]
          exact limit_le_of_trimmed fuel hd' hgone

end

/-! ## The order of use -/

/-- The keys that were used after the last use of `k`. -/
def usedSince (k : κ) (used : List κ) : List κ := used.reverse.takeWhile (fun k' => decide (k' ≠ k))

theorem usedSince_concat (k k' : κ) (used : List κ) :
    usedSince k (used ++ [k']) = if k' = k then [] else k' :: usedSince k used := by
  unfold usedSince
  rw [reverse_append, reverse_singleton, singleton_append, takeWhile_cons]
  by_cases hk : k' = k <;> simp [hk]

/-- What stands behind an entry was used after it. -/
def InOrder (m : List (κ × α)) (used : List κ) : Prop := m.Pairwise (fun a b => b.1 ∈ usedSince a.1 used)

variable {used : List κ}

theorem InOrder.sublist {m m' : List (κ × α)} (h : InOrder m used) (hsub : List.Sublist m' m) :
    InOrder m' used := List.Pairwise.sublist hsub h

theorem InOrder.touch (h : InOrder m used) (k : κ) (v : α) :
    InOrder (touch m k v) (used ++ [k]) := by
  have hdelete : InOrder (Maps.delete m k) used := InOrder.sublist h filter_sublist
  refine pairwise_append.2 ⟨?_, pairwise_singleton _ _, fun a ha b hb => ?_⟩
  · refine List.Pairwise.imp_of_mem (fun {a b} ha _ hab => ?_) hdelete
    rw [usedSince_concat, if_neg (Ne.symm (mem_delete.1 ha).2)]
    exact mem_cons_of_mem _ hab
  · rw [mem_singleton.1 hb, usedSince_concat, if_neg (Ne.symm (mem_delete.1 ha).2)]
    exact mem_cons_self

/-! ## What may push an entry out -/

/-- The other keys that may not go or were used since the last use of `k`. -/
def rivals (evictable : α → Bool) (k : κ) (m : List (κ × α)) (used : List κ) : List κ :=
  (Maps.distinct ((m.filter (fun e => !evictable e.2)).map Prod.fst ++ usedSince k used)).filter (fun k' => decide (k' ≠ k))

/-- **An entry stays** while it has fewer rivals than the limit. -/
theorem mem_trim_of_rivals {limit fuel : Nat} {evictable : α → Bool} {e : κ × α}
    (hd : Maps.Distinct m) (ho : InOrder m used) (he : e ∈ m)
    (hfew : (rivals evictable e.1 (trim limit evictable fuel m) used).length < limit) : e ∈ trim limit evictable fuel m := by
  refine Classical.byContradiction (fun hgone => ?_)
  obtain ⟨front, back, rfl⟩ := append_of_mem he
  have hlimit := limit_le_of_trimmed fuel hd hgone
  obtain ⟨hfront, hback, hcross⟩ := pairwise_append.1 hd
  rw [pairwise_cons] at hback
  have hnodup : ((front.filter (fun x => !evictable x.2) ++ back).map Prod.fst).Nodup := by
    refine pairwise_map.2 (pairwise_append.2 ⟨hfront.filter _, hback.2, fun a ha b hb => ?_⟩)
    exact hcross a (mem_of_mem_filter ha) b (mem_cons_of_mem e hb)
  have hsub : ((front.filter (fun x => !evictable x.2) ++ back).map Prod.fst) ⊆
      rivals evictable e.1 (trim limit evictable fuel (front ++ e :: back)) used := by
    intro k hk
    obtain ⟨x, hx, rfl⟩ := mem_map.1 hk
    refine mem_filter.2 ⟨mem_distinct.2 (mem_append.2 ?_), decide_eq_true ?_⟩
    · rcases mem_append.1 hx with hx | hx
      · obtain ⟨hin, hkept⟩ := mem_filter.1 hx
        have hstays : x ∈ trim limit evictable fuel (front ++ e :: back) :=
          mem_trim_of_kept fuel hd (mem_append_left _ hin) (by simpa using hkept)
        exact .inl (mem_map_of_mem (mem_filter.2 ⟨hstays, hkept⟩))
      · have hlater := (pairwise_append.1 ho).2.1
        exact .inr ((pairwise_cons.1 hlater).1 x hx)
    · rcases mem_append.1 hx with hx | hx
      · exact hcross x (mem_of_mem_filter hx) e mem_cons_self
      · exact Ne.symm (hback.1 x hx)
  have hle := (hnodup.subperm hsub).length_le
  rw [length_map, length_append] at hle
  omega

end Recency
