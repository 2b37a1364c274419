import Mathlib.Data.List.Basic
import Mathlib.Data.List.Find
/-!
# Tables — rows with auto-increment ids

A table is its rows in creation order and the id of the next one.  An insert hands out that id, an update leaves ids as
they are, and no id is handed out twice: a row is its id's row for good.
-/

/-- A stored row has an id. -/
class Row (α : Type) where
  id : α → Nat

structure Table (α : Type) [Row α] where
  rows : List α
  nextId : Nat
  idsIncrease : rows.Pairwise (fun a b => Row.id a < Row.id b)
  idsFresh : ∀ r ∈ rows, Row.id r < nextId

namespace Table

open List

variable {α : Type} [Row α]

@[ext] theorem ext {t t' : Table α} (hr : t.rows = t'.rows) (hn : t.nextId = t'.nextId) : t = t' := by
  cases t
  cases t'
  cases hr
  cases hn
  rfl

def empty : Table α where
  rows := []
  nextId := 1
  idsIncrease := .nil
  idsFresh := by simp

variable (t : Table α)

def get (p : α → Bool) : List α := t.rows.filter p

/-- `const [row] = get(...)`. -/
def first (p : α → Bool) : Option α := t.rows.find? p

def insert (mk : Nat → α) (hmk : ∀ n, Row.id (mk n) = n) : Table α where
  rows := t.rows ++ [mk t.nextId]
  nextId := t.nextId + 1
  idsIncrease := List.pairwise_append.2 ⟨t.idsIncrease, List.pairwise_singleton _ _, fun a ha b hb => by
    rw [List.mem_singleton.1 hb, hmk]; exact t.idsFresh a ha⟩
  idsFresh := fun r hr => by
    rcases List.mem_append.1 hr with hr | hr
    · exact Nat.lt_succ_of_lt (t.idsFresh r hr)
    · rw [List.mem_singleton.1 hr, hmk]; exact Nat.lt_succ_self _

def set (p : α → Bool) (f : α → α) (hf : ∀ r, Row.id (f r) = Row.id r) : Table α where
  rows := t.rows.map (fun r => if p r then f r else r)
  nextId := t.nextId
  idsIncrease := by
    have hid : ∀ r, Row.id (if p r then f r else r) = Row.id r := fun r => by
      split
      · exact hf r
      · rfl
    rw [List.pairwise_map]
    exact t.idsIncrease.imp (fun {a b} h => by rw [hid a, hid b]; exact h)
  idsFresh := fun r hr => by
    obtain ⟨a, ha, rfl⟩ := List.mem_map.1 hr
    split
    · rw [hf]; exact t.idsFresh a ha
    · exact t.idsFresh a ha

def remove (p : α → Bool) : Table α where
  rows := t.rows.filter (fun r => !p r)
  nextId := t.nextId
  idsIncrease := t.idsIncrease.filter _
  idsFresh := fun r hr => t.idsFresh r (List.mem_filter.1 hr).1

/-- `upsert` of one row: the rows under its key are updated, or it is inserted. -/
def upsert (p : α → Bool) (f : α → α) (hf : ∀ r, Row.id (f r) = Row.id r) (mk : Nat → α)
    (hmk : ∀ n, Row.id (mk n) = n) : Table α :=
  if t.rows.any p then t.set p f hf else t.insert mk hmk

variable {t} {p : α → Bool} {r : α}

theorem mem_of_first (h : t.first p = some r) : r ∈ t.rows ∧ p r = true :=
  ⟨mem_of_find?_eq_some h, find?_some h⟩

theorem first_eq_none : t.first p = none ↔ ∀ r ∈ t.rows, p r = false := by
  simp [first, find?_eq_none]

/-- **A row is its id's row.** -/
theorem eq_of_id {r r' : α} (hr : r ∈ t.rows) (hr' : r' ∈ t.rows) (h : Row.id r = Row.id r') : r = r' := by
  have key : ∀ (l : List α), l.Pairwise (fun a b => Row.id a < Row.id b) → r ∈ l → r' ∈ l → r = r' := by
    intro l hl hr hr'
    induction l with
    | nil => cases hr
    | cons a l ih =>
      rcases mem_cons.1 hr with rfl | hr₁
      · rcases mem_cons.1 hr' with rfl | hr₂
        · rfl
        · exact absurd (rel_of_pairwise_cons hl hr₂) (by omega)
      · rcases mem_cons.1 hr' with rfl | hr₂
        · exact absurd (rel_of_pairwise_cons hl hr₁) (by omega)
        · exact ih hl.of_cons hr₁ hr₂
  exact key t.rows t.idsIncrease hr hr'

theorem first_id_of_mem (hr : r ∈ t.rows) :
    t.first (fun x => decide (Row.id x = Row.id r)) = some r := by
  cases h : t.first (fun x => decide (Row.id x = Row.id r)) with
  | none =>
    have := first_eq_none.1 h r hr
    simp at this
  | some x =>
    obtain ⟨hx, hxr⟩ := mem_of_first h
    rw [eq_of_id hx hr (by simpa using hxr)]

theorem mem_insert {mk : Nat → α} {hmk : ∀ n, Row.id (mk n) = n} :
    r ∈ (t.insert mk hmk).rows ↔ r ∈ t.rows ∨ r = mk t.nextId := by
  simp [insert]

variable {f : α → α} {hf : ∀ r, Row.id (f r) = Row.id r}

theorem mem_set :
    r ∈ (t.set p f hf).rows ↔ ∃ a ∈ t.rows, (if p a then f a else a) = r := by
  simp [set]

theorem mem_remove : r ∈ (t.remove p).rows ↔ r ∈ t.rows ∧ p r = false := by
  simp [remove]

/-! An upsert that writes whole rows: a row under the key is written again, or a new one is. -/

section Written

variable {p : α → Bool} {f : α → α} {hf : ∀ r, Row.id (f r) = Row.id r} {mk : Nat → α} {hmk : ∀ n, Row.id (mk n) = n}

theorem mem_upsert_of_other {r : α} (hr : r ∈ t.rows) (hp : p r = false) : r ∈ (t.upsert p f hf mk hmk).rows := by
  unfold upsert
  split
  · exact mem_set.2 ⟨r, hr, by simp [hp]⟩
  · exact mem_insert.2 (Or.inl hr)

variable (hmade : ∀ r, f r = mk (Row.id r))
include hmade

theorem mem_upsert_imp {r : α} (h : r ∈ (t.upsert p f hf mk hmk).rows) :
    (r ∈ t.rows ∧ p r = false) ∨ ∃ n, r = mk n := by
  unfold upsert at h
  split at h
  · obtain ⟨a, ha, rfl⟩ := mem_set.1 h
    by_cases hp : p a = true
    · exact Or.inr ⟨Row.id a, by rw [if_pos hp, hmade]⟩
    · rw [if_neg hp]
      exact Or.inl ⟨ha, by simpa using hp⟩
  · rename_i hnone
    rcases mem_insert.1 h with hr | hr
    · refine Or.inl ⟨hr, ?_⟩
      by_contra hp
      exact hnone (any_eq_true.2 ⟨r, hr, by simpa using hp⟩)
    · exact Or.inr ⟨t.nextId, hr⟩

theorem exists_mem_upsert : ∃ n, mk n ∈ (t.upsert p f hf mk hmk).rows := by
  unfold upsert
  split
  · rename_i hany
    obtain ⟨a, ha, hp⟩ := any_eq_true.1 hany
    exact ⟨Row.id a, mem_set.2 ⟨a, ha, by rw [if_pos hp, hmade]⟩⟩
  · exact ⟨t.nextId, mem_insert.2 (Or.inr rfl)⟩

omit hmade in
theorem upsert_unique (hu : ∀ r ∈ t.rows, ∀ r' ∈ t.rows, p r = true → p r' = true → r = r') :
    ∀ r ∈ (t.upsert p f hf mk hmk).rows, ∀ r' ∈ (t.upsert p f hf mk hmk).rows, p r = true → p r' = true → r = r' := by
  intro r hr r' hr' hp hp'
  unfold upsert at hr hr'
  split at hr
  · have hold : ∀ x ∈ (t.set p f hf).rows, p x = true → ∃ a ∈ t.rows, p a = true ∧ x = f a := fun x hx hpx => by
      obtain ⟨a, ha, rfl⟩ := mem_set.1 hx
      by_cases hpa : p a = true
      · exact ⟨a, ha, hpa, if_pos hpa⟩
      · rw [if_neg hpa] at hpx
        exact absurd hpx hpa
    rename_i hany
    rw [if_pos hany] at hr'
    obtain ⟨a, ha, hpa, rfl⟩ := hold r hr hp
    obtain ⟨a', ha', hpa', rfl⟩ := hold r' hr' hp'
    rw [hu a ha a' ha' hpa hpa']
  · rename_i hnone
    rw [if_neg hnone] at hr'
    have hnew : ∀ x ∈ (t.insert mk hmk).rows, p x = true → x = mk t.nextId := fun x hx hpx =>
      (mem_insert.1 hx).resolve_left (fun hold => hnone (any_eq_true.2 ⟨x, hold, hpx⟩))
    rw [hnew r hr hp, hnew r' hr' hp']

end Written

variable {p q : α → Bool}

omit [Row α] in
theorem find?_map_on : ∀ {l : List α}, (∀ r ∈ l, p r = true → q (f r) = q r) →
    (l.map (fun r => if p r then f r else r)).find? q = (l.find? q).map (fun r => if p r then f r else r)
  | [], _ => rfl
  | r :: l, h => by
    have hr : q (if p r then f r else r) = q r := by
      split
      · rename_i hp
        exact h r mem_cons_self hp
      · rfl
    rw [map_cons, find?_cons, find?_cons, hr, find?_map_on (fun r hr => h r (mem_cons_of_mem _ hr))]
    cases q r <;> rfl

theorem first_set_on
    (hq : ∀ r ∈ t.rows, p r = true → q (f r) = q r) :
    (t.set p f hf).first q = (t.first q).map (fun r => if p r then f r else r) :=
  find?_map_on hq

theorem first_set
    (hq : ∀ r, p r = true → q (f r) = q r) :
    (t.set p f hf).first q = (t.first q).map (fun r => if p r then f r else r) :=
  first_set_on (fun r _ hp => hq r hp)

theorem first_set_found
    (hq : ∀ r, p r = true → q (f r) = q r) (h : t.first q = some r) (hp : p r = true) :
    (t.set p f hf).first q = some (f r) := by
  rw [first_set hq, h, Option.map_some, if_pos hp]

theorem first_insert {q : α → Bool} {mk : Nat → α} {hmk : ∀ n, Row.id (mk n) = n} :
    (t.insert mk hmk).first q = (t.first q).or (if q (mk t.nextId) then some (mk t.nextId) else none) := by
  unfold first insert
  rw [find?_append]
  cases h : q (mk t.nextId) <;> simp [h]

/-! What a query finds is not touched by a write to rows it does not look at. -/

section Other

variable {p q : α → Bool} {f : α → α} {hf : ∀ r, Row.id (f r) = Row.id r} {mk : Nat → α} {hmk : ∀ n, Row.id (mk n) = n}

theorem first_set_of_other (h : ∀ r ∈ t.rows, p r = true → q r = false ∧ q (f r) = false) :
    (t.set p f hf).first q = t.first q := by
  rw [first_set_on (fun r hr hp => (h r hr hp).2.trans (h r hr hp).1.symm)]
  cases hfound : t.first q with
  | none => rfl
  | some r =>
    obtain ⟨hr, hq⟩ := mem_of_first hfound
    have hp : ¬ p r = true := fun hp => by
      rw [(h r hr hp).1] at hq
      cases hq
    rw [Option.map_some, if_neg hp]

theorem first_insert_of_other (h : q (mk t.nextId) = false) : (t.insert mk hmk).first q = t.first q := by
  rw [first_insert, h, if_neg Bool.false_ne_true, Option.or_none]

theorem first_upsert_of_other (h : ∀ r ∈ t.rows, p r = true → q r = false ∧ q (f r) = false)
    (hq : ∀ n, q (mk n) = false) : (t.upsert p f hf mk hmk).first q = t.first q := by
  unfold upsert
  split
  · exact first_set_of_other h
  · exact first_insert_of_other (hq _)

theorem first_remove_of_other (h : ∀ r ∈ t.rows, p r = true → q r = false) : (t.remove p).first q = t.first q := by
  unfold first remove
  rw [find?_filter]
  refine find?_congr (fun r hr => ?_)
  cases hp : p r with
  | true => simp [h r hr hp]
  | false => simp

end Other

end Table
