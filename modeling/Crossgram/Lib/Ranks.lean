import Crossgram.Lib.Maps
/-!
# Ranks — keys with growing ranks

A table of ranks and the highest rank so far.  A key is either given a rank of its own (`keep`), or the next rank above
all of them (`raise`): what was raised is above everything that stood before, and no two raised keys share a rank.
-/

structure Ranks (κ : Type) where
  ranks : List (κ × Nat)
  top : Nat

namespace Ranks

variable {κ : Type} [DecidableEq κ]

def empty : Ranks κ := ⟨[], 0⟩

def get (r : Ranks κ) (k : κ) : Option Nat := Maps.get r.ranks k

def has (r : Ranks κ) (k : κ) : Bool := Maps.has r.ranks k

def keep (r : Ranks κ) (k : κ) (n : Nat) : Ranks κ := ⟨Maps.set r.ranks k n, max r.top n⟩

def raise (r : Ranks κ) (k : κ) : Ranks κ := ⟨Maps.set r.ranks k (r.top + 1), r.top + 1⟩

variable {k : κ} {r : Ranks κ}

theorem has_iff : r.has k = true ↔ ∃ n, r.get k = some n := by
  unfold has get
  rw [Maps.has_eq_isSome, Option.isSome_iff_exists]

@[simp] theorem get_empty (k : κ) : (empty : Ranks κ).get k = none := rfl

@[simp] theorem get_keep (r : Ranks κ) (k k' : κ) (n : Nat) :
    (r.keep k n).get k' = if k' = k then some n else r.get k' := Maps.get_set r.ranks k n k'

@[simp] theorem get_raise (r : Ranks κ) (k k' : κ) :
    (r.raise k).get k' = if k' = k then some (r.top + 1) else r.get k' := Maps.get_set r.ranks k _ k'

def Bounded (r : Ranks κ) : Prop := ∀ k n, r.get k = some n → n ≤ r.top

theorem bounded_empty : (empty : Ranks κ).Bounded := fun _ _ h => by cases h

theorem Bounded.keep (h : r.Bounded) (k : κ) (n : Nat) : (r.keep k n).Bounded := by
  intro k' n' hget
  rw [get_keep] at hget
  split at hget
  · cases hget
    exact Nat.le_max_right _ _
  · exact Nat.le_trans (h k' n' hget) (Nat.le_max_left _ _)

theorem Bounded.raise (h : r.Bounded) (k : κ) : (r.raise k).Bounded := by
  intro k' n' hget
  rw [get_raise] at hget
  split at hget
  · cases hget
    exact Nat.le_refl _
  · exact Nat.le_trans (h k' n' hget) (Nat.le_succ _)

/-! ## Raising one key after another -/

/-- `r'` is `r` after some keys were raised: a key keeps its rank, or has one above those of `r` that is its own. -/
structure Raised (r r' : Ranks κ) : Prop where
  top : r.top ≤ r'.top
  bounded : r.Bounded → r'.Bounded
  kept : ∀ k, r'.get k = r.get k ∨ ∃ n, r'.get k = some n ∧ r.top < n
  own : r.Bounded → ∀ k k' n, r'.get k = some n → r'.get k' = some n → r.top < n → k = k'

theorem Raised.refl (r : Ranks κ) : Raised r r where
  top := Nat.le_refl _
  bounded := id
  kept := fun _ => Or.inl rfl
  own := fun h k _ n hk _ hn => absurd (h k n hk) (by omega)

theorem raised_raise (r : Ranks κ) (k : κ) : Raised r (r.raise k) where
  top := Nat.le_succ _
  bounded := fun h => h.raise k
  kept := fun k' => by
    rw [get_raise]
    by_cases hk : k' = k
    · exact Or.inr ⟨r.top + 1, if_pos hk, Nat.lt_succ_self _⟩
    · exact Or.inl (if_neg hk)
  own := fun h k₁ k₂ n h₁ h₂ hn => by
    have hown : ∀ k', (r.raise k).get k' = some n → k' = k := fun k' hk' => by
      rw [get_raise] at hk'
      by_contra hne
      rw [if_neg hne] at hk'
      exact absurd (h k' n hk') (by omega)
    exact (hown k₁ h₁).trans (hown k₂ h₂).symm

theorem Raised.trans {r r' r'' : Ranks κ} (h : Raised r r') (h' : Raised r' r'') : Raised r r'' where
  top := Nat.le_trans h.top h'.top
  bounded := fun hb => h'.bounded (h.bounded hb)
  kept := fun k => by
    rcases h'.kept k with hk | ⟨n, hk, hn⟩
    · rw [hk]
      exact h.kept k
    · exact Or.inr ⟨n, hk, Nat.lt_of_le_of_lt h.top hn⟩
  own := fun hb k k' n hk hk' hn => by
    by_cases htop : r'.top < n
    · exact h'.own (h.bounded hb) k k' n hk hk' htop
    · -- a rank that is not above those of `r'` is one `r'` had
      have hold : ∀ k₀, r''.get k₀ = some n → r'.get k₀ = some n := fun k₀ hk₀ => by
        rcases h'.kept k₀ with heq | ⟨n', heq, hn'⟩
        · rw [← heq, hk₀]
        · rw [hk₀, Option.some.injEq] at heq
          omega
      exact h.own hb k k' n (hold k hk) (hold k' hk') hn

def raiseAll (r : Ranks κ) (ks : List κ) : Ranks κ := ks.foldl raise r

def raiseMissing (r : Ranks κ) (ks : List κ) : Ranks κ := ks.foldl (fun r k => if r.has k then r else r.raise k) r

theorem raised_raiseAll : ∀ (ks : List κ) (r : Ranks κ), Raised r (r.raiseAll ks)
  | [],      r => Raised.refl r
  | k :: ks, r => (raised_raise r k).trans (raised_raiseAll ks (r.raise k))

theorem raised_missing (r : Ranks κ) (k : κ) : Raised r (if r.has k then r else r.raise k) := by
  split
  · exact Raised.refl r
  · exact raised_raise r k

theorem raised_raiseMissing : ∀ (ks : List κ) (r : Ranks κ), Raised r (r.raiseMissing ks)
  | [],      r => Raised.refl r
  | k :: ks, r => (raised_missing r k).trans (raised_raiseMissing ks _)

theorem get_raiseAll_of_notMem : ∀ (ks : List κ) (r : Ranks κ), k ∉ ks → (r.raiseAll ks).get k = r.get k
  | [],       _, _ => rfl
  | k' :: ks, r, h => by
    have hne : k ≠ k' := fun hk => h (hk ▸ List.mem_cons_self)
    have hks : k ∉ ks := fun hk => h (List.mem_cons_of_mem _ hk)
    rw [raiseAll, List.foldl_cons]
    refine (get_raiseAll_of_notMem ks (r.raise k') hks).trans ?_
    rw [get_raise, if_neg hne]

/-- **A raised key is above everything that stood before.** -/
theorem get_raiseAll_of_mem : ∀ (ks : List κ) (r : Ranks κ), k ∈ ks →
    ∃ n, (r.raiseAll ks).get k = some n ∧ r.top < n
  | [],       _, h => by cases h
  | k' :: ks, r, h => by
    by_cases hks : k ∈ ks
    · obtain ⟨n, hn, htop⟩ := get_raiseAll_of_mem ks (r.raise k') hks
      exact ⟨n, hn, Nat.lt_trans (Nat.lt_succ_self _) htop⟩
    · have hk : k = k' := (List.mem_cons.1 h).resolve_right hks
      refine ⟨r.top + 1, ?_, Nat.lt_succ_self _⟩
      refine (get_raiseAll_of_notMem ks (r.raise k') hks).trans ?_
      rw [get_raise, if_pos hk]

theorem get_raiseMissing_of_notMem : ∀ (ks : List κ) (r : Ranks κ), k ∉ ks → (r.raiseMissing ks).get k = r.get k
  | [],       _, _ => rfl
  | k' :: ks, r, h => by
    have hne : k ≠ k' := fun hk => h (hk ▸ List.mem_cons_self)
    refine (get_raiseMissing_of_notMem ks _ (fun hk => h (List.mem_cons_of_mem _ hk))).trans ?_
    dsimp only
    split
    · rfl
    · rw [get_raise, if_neg hne]

theorem get_raiseMissing_of_has {n : Nat} : ∀ (ks : List κ) {r : Ranks κ}, r.get k = some n →
    (r.raiseMissing ks).get k = some n
  | [],       _, h => h
  | k' :: ks, r, h => by
    have hstep : (if r.has k' then r else r.raise k').get k = some n := by
      split
      · exact h
      · rename_i hhas
        have hne : k ≠ k' := fun hk => hhas (has_iff.2 ⟨n, hk ▸ h⟩)
        rw [get_raise, if_neg hne]
        exact h
    exact get_raiseMissing_of_has ks hstep

theorem get_raiseMissing_of_mem : ∀ (ks : List κ) {r : Ranks κ}, k ∈ ks →
    ∃ n, (r.raiseMissing ks).get k = some n
  | [],       _, h => by cases h
  | k' :: ks, r, h => by
    rcases List.mem_cons.1 h with rfl | h
    · have hstep : ∃ n, (if r.has k then r else r.raise k).get k = some n := by
        by_cases hhas : r.has k = true
        · rw [if_pos hhas]
          exact has_iff.1 hhas
        · rw [if_neg hhas, get_raise, if_pos rfl]
          exact ⟨_, rfl⟩
      obtain ⟨n, hn⟩ := hstep
      exact ⟨n, get_raiseMissing_of_has ks hn⟩
    · exact get_raiseMissing_of_mem ks h

end Ranks
