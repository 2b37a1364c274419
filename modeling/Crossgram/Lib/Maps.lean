import Mathlib.Data.List.Basic
/-!
# Maps — insertion-ordered maps

A map is the list of its entries in the order their keys were first set.  Setting a key that is there changes its value
in place; deleting it and setting it again moves it to the end.
-/
namespace Maps

open List

variable {κ α : Type} [DecidableEq κ]

def get (m : List (κ × α)) (k : κ) : Option α := (m.find? (fun e => e.1 = k)).map Prod.snd

def has (m : List (κ × α)) (k : κ) : Bool := m.any (fun e => e.1 = k)

def set (m : List (κ × α)) (k : κ) (v : α) : List (κ × α) :=
  if has m k then m.map (fun e => if e.1 = k then (k, v) else e) else m ++ [(k, v)]

def delete (m : List (κ × α)) (k : κ) : List (κ × α) := m.filter (fun e => e.1 ≠ k)

/-- `new Map(entries)`: of two entries with one key the later value counts. -/
def ofList (entries : List (κ × α)) : List (κ × α) := entries.foldl (fun m e => set m e.1 e.2) []

/-- `[...new Set(values)]`: the values in the order they first appear. -/
def distinct : List κ → List κ
  | []     => []
  | k :: l => k :: (distinct l).filter (fun k' => k' ≠ k)

variable {k : κ}

@[simp] theorem mem_distinct : ∀ {l : List κ}, k ∈ distinct l ↔ k ∈ l
  | []      => Iff.rfl
  | k' :: l => by
    rw [distinct, mem_cons, mem_cons, mem_filter, mem_distinct, decide_eq_true_eq]
    by_cases hk : k = k'
    · simp [hk]
    · simp [hk]

theorem nodup_distinct : ∀ l : List κ, (distinct l).Nodup
  | []     => nodup_nil
  | k :: l => by
    rw [distinct, nodup_cons]
    exact ⟨fun h => by simp at h, (nodup_distinct l).filter _⟩

@[simp] theorem get_nil (k : κ) : get ([] : List (κ × α)) k = none := rfl

theorem get_cons (e : κ × α) (m : List (κ × α)) (k : κ) : get (e :: m) k = if e.1 = k then some e.2 else get m k := by
  by_cases h : e.1 = k
  · simp [get, h]
  · simp [get, h]

theorem get_map_values {β : Type} (f : κ → α → β) (k : κ) : ∀ m : List (κ × α),
    get (m.map (fun e => (e.1, f e.1 e.2))) k = (get m k).map (f k)
  | []     => rfl
  | e :: m => by
    rw [map_cons, get_cons, get_cons, get_map_values f k m]
    by_cases hk : e.1 = k
    · simp [hk]
    · simp [hk]

theorem get_append (m m' : List (κ × α)) (k : κ) : get (m ++ m') k = (get m k).or (get m' k) := by
  unfold get
  rw [find?_append]
  cases List.find? (fun e => decide (e.1 = k)) m <;> simp

variable {m : List (κ × α)}

theorem get_eq_none : get m k = none ↔ ∀ e ∈ m, e.1 ≠ k := by
  simp [get, find?_eq_none]

theorem has_iff : has m k = true ↔ ∃ e ∈ m, e.1 = k := by
  simp [has]

variable {v : α}

theorem mem_of_get (h : get m k = some v) : (k, v) ∈ m := by
  obtain ⟨e, he, rfl⟩ := Option.map_eq_some_iff.1 h
  have hk : e.1 = k := by simpa using find?_some he
  rw [← hk]
  exact mem_of_find?_eq_some he

theorem get_map_set : ∀ (m : List (κ × α)) (k : κ) (v : α) (k' : κ), has m k = true →
    get (m.map (fun e => if e.1 = k then (k, v) else e)) k' = if k' = k then some v else get m k'
  | [], _, _, _, h => by cases h
  | e :: m, k, v, k', h => by
    rw [map_cons, get_cons, get_cons]
    by_cases hek : e.1 = k
    · by_cases hk' : k' = k
      · simp [hek, hk']
      · by_cases hm : has m k = true
        · rw [get_map_set m k v k' hm]
          simp [hek, hk', Ne.symm hk']
        · have : m.map (fun e => if e.1 = k then (k, v) else e) = m :=
            (map_congr_left (fun e' he' => if_neg (fun hc => hm (has_iff.2 ⟨e', he', hc⟩)))).trans (map_id' m)
          simp [hek, Ne.symm hk', hk', this]
    · have hm : has m k = true := by simpa [has, hek] using h
      rw [get_map_set m k v k' hm]
      by_cases hk' : k' = k
      · subst hk'
        simp [hek]
      · simp [hek, hk']

/-- **What a map holds after a key is set.** -/
@[simp] theorem get_set (m : List (κ × α)) (k : κ) (v : α) (k' : κ) :
    get (set m k v) k' = if k' = k then some v else get m k' := by
  unfold set
  split
  · rename_i h
    exact get_map_set m k v k' h
  · rename_i h
    rw [get_append]
    by_cases hk : k' = k
    · have hnone : get m k' = none := get_eq_none.2 (fun e he hc => h (has_iff.2 ⟨e, he, hc.trans hk⟩))
      rw [hnone, if_pos hk, get_cons, if_pos hk.symm]
      rfl
    · rw [if_neg hk, get_cons, if_neg (Ne.symm hk), get_nil, Option.or_none]

theorem get_delete (m : List (κ × α)) (k k' : κ) : get (delete m k) k' = if k' = k then none else get m k' := by
  unfold get delete
  rw [find?_filter]
  by_cases hk : k' = k
  · subst hk
    simp
  · rw [if_neg hk]
    congr 2
    funext e
    by_cases he : e.1 = k'
    · simp [he, hk]
    · simp [he]

theorem get_filter_keys (p : κ → Bool) (k : κ) : ∀ m : List (κ × α),
    get (m.filter (fun e => p e.1)) k = if p k = true then get m k else none
  | []     => by simp
  | e :: m => by
    rw [filter_cons]
    by_cases hk : e.1 = k
    · subst hk
      cases hp : p e.1 with
      | true => rw [if_pos rfl, if_pos rfl, get_cons, get_cons, if_pos rfl, if_pos rfl]
      | false => rw [if_neg Bool.false_ne_true, if_neg Bool.false_ne_true, get_filter_keys p e.1 m, hp,
          if_neg Bool.false_ne_true]
    · split
      · rw [get_cons, get_cons, if_neg hk, if_neg hk, get_filter_keys p k m]
      · rw [get_cons, if_neg hk, get_filter_keys p k m]

theorem get_foldl_set (entries : List (κ × α)) : ∀ (m : List (κ × α)) (k : κ),
    get (entries.foldl (fun m e => set m e.1 e.2) m) k = (get entries.reverse k).or (get m k) := by
  induction entries with
  | nil => intro m k; rfl
  | cons e entries ih =>
    intro m k
    rw [foldl_cons, ih, reverse_cons, get_append, get_set, get_cons, get_nil]
    by_cases hk : e.1 = k
    · simp [hk]
    · simp [hk, Ne.symm hk]

theorem get_ofList (entries : List (κ × α)) (k : κ) : get (ofList entries) k = get entries.reverse k := by
  rw [ofList, get_foldl_set, get_nil, Option.or_none]

theorem get_ofList_of_distinct {entries : List (κ × α)} (hd : entries.Pairwise (fun a b => a.1 ≠ b.1)) (k : κ) :
    get (ofList entries) k = get entries k := by
  rw [get_ofList]
  induction entries with
  | nil => rfl
  | cons e entries ih =>
    rw [reverse_cons, get_append, get_cons, get_nil, get_cons, ih hd.of_cons]
    by_cases hk : e.1 = k
    · have hnone : get entries k = none := get_eq_none.2 (fun e' he' hc =>
        rel_of_pairwise_cons hd he' (hk.trans hc.symm))
      simp [hk, hnone]
    · simp [hk]

theorem filter_set (p : κ → Bool) (m : List (κ × α)) (k : κ) (v : α) :
    (set m k v).filter (fun e => p e.1) =
      if p k = true then set (m.filter (fun e => p e.1)) k v else m.filter (fun e => p e.1) := by
  have hval : ((fun e : κ × α => p e.1) ∘ fun e => if e.1 = k then (k, v) else e) = fun e => p e.1 := by
    funext e
    by_cases he : e.1 = k
    · simp [he]
    · simp [he]
  by_cases hp : p k = true
  · have hhas : has (m.filter (fun e => p e.1)) k = has m k := by
      rw [Bool.eq_iff_iff, has_iff, has_iff]
      constructor
      · rintro ⟨e, he, hk⟩
        exact ⟨e, mem_of_mem_filter he, hk⟩
      · rintro ⟨e, he, hk⟩
        exact ⟨e, mem_filter.2 ⟨he, by rw [hk, hp]⟩, hk⟩
    rw [if_pos hp, set, set, hhas]
    split
    · rw [filter_map, hval]
    · rw [filter_append]
      simp [hp]
  · rw [if_neg hp, set]
    split
    · rw [filter_map, hval]
      refine (map_congr_left (fun e he => if_neg (fun hk => hp ?_))).trans (map_id' _)
      rw [← hk]
      exact (mem_filter.1 he).2
    · rw [filter_append]
      simp [hp]

variable {e : κ × α}

theorem mem_set_imp (h : e ∈ set m k v) : e = (k, v) ∨ e ∈ m := by
  unfold set at h
  split at h
  · obtain ⟨e', he', rfl⟩ := mem_map.1 h
    by_cases hk : e'.1 = k
    · exact Or.inl (if_pos hk)
    · rw [if_neg hk]
      exact Or.inr he'
  · rcases mem_append.1 h with h | h
    · exact Or.inr h
    · exact Or.inl (mem_singleton.1 h)

theorem mem_of_mem_ofList {entries : List (κ × α)} (h : e ∈ ofList entries) : e ∈ entries := by
  refine List.foldlRecOn (motive := fun m => ∀ e ∈ m, e ∈ entries) entries _ (fun e he => by cases he) ?_ e h
  intro m hm a ha e he
  rcases mem_set_imp he with rfl | he
  · exact ha
  · exact hm e he

/-! ## Maps as the entries of their keys

A map built by `set` and `delete` holds each key once; sums over its entries then move with one entry. -/

def Distinct (m : List (κ × α)) : Prop := m.Pairwise (fun a b => a.1 ≠ b.1)

omit [DecidableEq κ] in
@[simp] theorem Distinct.nil : Distinct ([] : List (κ × α)) := List.Pairwise.nil

theorem mem_delete : e ∈ delete m k ↔ e ∈ m ∧ e.1 ≠ k := by
  simp [delete]

theorem Distinct.delete (h : Distinct m) (k : κ) : Distinct (delete m k) := List.Pairwise.filter _ h

theorem get_of_mem (h : Distinct m) (hm : (k, v) ∈ m) : get m k = some v := by
  induction m with
  | nil => cases hm
  | cons e m ih =>
    rw [get_cons]
    rcases mem_cons.1 hm with rfl | hm
    · rw [if_pos rfl]
    · rw [if_neg (rel_of_pairwise_cons h hm), ih h.of_cons hm]

theorem delete_of_get_none (h : get m k = none) : delete m k = m :=
  filter_eq_self.2 (fun e he => by simpa using get_eq_none.1 h e he)

/-- **A map is its entry under a key and the rest.** -/
theorem perm_of_get (h : Distinct m) (hg : get m k = some v) :
    m.Perm ((k, v) :: delete m k) := by
  induction m with
  | nil => cases hg
  | cons e m ih =>
    rw [get_cons] at hg
    by_cases he : e.1 = k
    · rw [if_pos he, Option.some.injEq] at hg
      have hrest : delete m k = m := delete_of_get_none (get_eq_none.2 (fun e' he' hc =>
        rel_of_pairwise_cons h he' (he.trans hc.symm)))
      have hd : delete (e :: m) k = m := by
        rw [delete, filter_cons_of_neg (by simp [he])]
        exact hrest
      rw [hd, ← he, ← hg]
    · rw [if_neg he] at hg
      have hd : delete (e :: m) k = e :: delete m k := by
        rw [delete, filter_cons_of_pos (by simp [he])]
        rfl
      rw [hd]
      exact ((ih h.of_cons hg).cons e).trans (List.Perm.swap _ _ _)

theorem has_eq_isSome (m : List (κ × α)) (k : κ) : has m k = (get m k).isSome := by
  rw [Bool.eq_iff_iff, has_iff]
  constructor
  · rintro ⟨e, he, hk⟩
    rw [Option.isSome_iff_ne_none]
    exact fun hn => get_eq_none.1 hn e he hk
  · intro h
    obtain ⟨v, hv⟩ := Option.isSome_iff_exists.1 h
    exact ⟨_, mem_of_get hv, rfl⟩

/-- **Setting a key replaces its entry.** -/
theorem set_perm (h : Distinct m) (k : κ) (v : α) : (set m k v).Perm ((k, v) :: delete m k) := by
  unfold set
  cases hg : get m k with
  | none =>
    rw [has_eq_isSome, hg, delete_of_get_none hg, if_neg (by simp)]
    exact perm_append_singleton _ _
  | some old =>
    rw [has_eq_isSome, hg, Option.isSome_some, if_pos rfl]
    have hmap : (delete m k).map (fun e => if e.1 = k then (k, v) else e) = delete m k := by
      refine (map_congr_left (fun e he => if_neg ?_)).trans (map_id' _)
      exact (mem_delete.1 he).2
    have := (perm_of_get h hg).map (fun e => if e.1 = k then (k, v) else e)
    rw [map_cons, if_pos rfl, hmap] at this
    exact this

omit [DecidableEq κ] in
theorem distinct_of_perm {m m' : List (κ × α)} (hp : m.Perm m') (h : Distinct m') : Distinct m :=
  (hp.pairwise_iff (fun hab => Ne.symm hab)).2 h

theorem Distinct.set (h : Distinct m) (k : κ) (v : α) : Distinct (set m k v) :=
  distinct_of_perm (set_perm h k v) (List.Pairwise.cons (fun _ he => Ne.symm (mem_delete.1 he).2) (h.delete k))

theorem mem_set (h : Distinct m) :
    e ∈ set m k v ↔ e = (k, v) ∨ e ∈ m ∧ e.1 ≠ k := by
  rw [(set_perm h k v).mem_iff, mem_cons, mem_delete]

theorem foldl_set_of_distinct : ∀ (entries m : List (κ × α)), Distinct (m ++ entries) →
    entries.foldl (fun m e => set m e.1 e.2) m = m ++ entries
  | [], m, _ => (append_nil m).symm
  | e :: entries, m, h => by
    have hnot : ¬has m e.1 = true := fun hh => by
      obtain ⟨e', he', hk⟩ := has_iff.1 hh
      exact (pairwise_append.1 h).2.2 e' he' e mem_cons_self hk
    have happend : m ++ e :: entries = m ++ [(e.1, e.2)] ++ entries := by rw [append_assoc]; rfl
    rw [foldl_cons, set, if_neg hnot, happend]
    exact foldl_set_of_distinct entries _ (happend ▸ h)

/-- **A map is what its own entries make.** -/
theorem ofList_of_distinct (h : Distinct m) : ofList m = m := foldl_set_of_distinct m [] h

theorem distinct_ofList (entries : List (κ × α)) : Distinct (ofList entries) :=
  List.foldlRecOn entries _ Distinct.nil (fun _ h e _ => Distinct.set h e.1 e.2)

section Sums

variable (w : α → Int) {m : List (κ × α)} {k : κ}

def sum : List (κ × α) → Int
  | []     => 0
  | e :: m => w e.2 + sum m

omit [DecidableEq κ] in
theorem sum_perm {m m' : List (κ × α)} (hp : m.Perm m') : sum w m = sum w m' := by
  induction hp with
  | nil => rfl
  | cons e _ ih => rw [sum, sum, ih]
  | swap e e' m =>
    simp only [sum]
    omega
  | trans _ _ ih ih' => exact ih.trans ih'

theorem sum_delete (h : Distinct m) : sum w (delete m k) = sum w m - ((get m k).map w).getD 0 := by
  cases hg : get m k with
  | none =>
    rw [delete_of_get_none hg]
    exact (Int.sub_zero _).symm
  | some v =>
    rw [sum_perm w (perm_of_get h hg)]
    simp only [sum, Option.map_some, Option.getD_some]
    omega

theorem sum_set (h : Distinct m) (v : α) : sum w (set m k v) = sum w m - ((get m k).map w).getD 0 + w v := by
  rw [sum_perm w (set_perm h k v), sum, sum_delete w h]
  exact Int.add_comm _ _

end Sums

end Maps
