import Crossgram.Lib.Maps
/-!
# BoundedMaps — insertion-ordered maps that forget their oldest entries

Setting a key moves it to the end; past the limit the entries at the front go.  Without a limit nothing is forgotten
(`get_set_none`), and a bounded map behaves as an unbounded one as long as that one stays within the limit
(`set_of_fits`).  Over a run it is enough that it fits at the end, as a map without a limit only grows (`Follows.foldl`).
-/
namespace BoundedMaps

open List

variable {κ α : Type} [DecidableEq κ]

/-- `none` is the limit Infinity. -/
def set (limit : Option Nat) (m : List (κ × α)) (k : κ) (v : α) : List (κ × α) :=
  let entries := Maps.delete m k ++ [(k, v)]
  match limit with
  | none   => entries
  | some n => entries.drop (entries.length - n)

def Fits (limit : Option Nat) (m : List (κ × α)) : Prop := ∀ n ∈ limit, m.length ≤ n

instance (limit : Option Nat) (m : List (κ × α)) : Decidable (Fits limit m) := by unfold Fits; infer_instance

theorem get_set_none (m : List (κ × α)) (k : κ) (v : α) (k' : κ) :
    Maps.get (set none m k v) k' = if k' = k then some v else Maps.get m k' := by
  show Maps.get (Maps.delete m k ++ [(k, v)]) k' = _
  rw [Maps.get_append, Maps.get_delete, Maps.get_cons]
  by_cases hk : k' = k
  · simp [hk]
  · simp [hk, Ne.symm hk]

variable {m : List (κ × α)}

theorem set_of_fits {limit : Option Nat} {k : κ} {v : α} (h : Fits limit (set none m k v)) :
    set limit m k v = set none m k v := by
  cases limit with
  | none => rfl
  | some n =>
    have hn : (Maps.delete m k ++ [(k, v)]).length ≤ n := h n rfl
    show (Maps.delete m k ++ [(k, v)]).drop ((Maps.delete m k ++ [(k, v)]).length - n) = _
    rw [Nat.sub_eq_zero_of_le hn]
    rfl

theorem distinct_set_none (h : Maps.Distinct m) (k : κ) (v : α) :
    Maps.Distinct (set none m k v) := by
  refine pairwise_append.2 ⟨h.delete k, pairwise_singleton _ _, fun e he e' he' => ?_⟩
  rw [mem_singleton.1 he']
  exact (Maps.mem_delete.1 he).2

theorem fits_of_set {limit : Option Nat} (hd : Maps.Distinct m) {k : κ} {v : α}
    (h : Fits limit (set none m k v)) : Fits limit m := by
  intro n hn
  have hlen : (Maps.delete m k ++ [(k, v)]).length ≤ n := h n hn
  rw [length_append, length_singleton] at hlen
  cases hg : Maps.get m k with
  | none =>
    rw [Maps.delete_of_get_none hg] at hlen
    omega
  | some old =>
    have := (Maps.perm_of_get hd hg).length_eq
    rw [length_cons] at this
    omega

theorem get_foldl_set_none (v : α) (k' : κ) : ∀ (keys : List κ) (m : List (κ × α)),
    Maps.get (keys.foldl (fun m k => set none m k v) m) k' = if k' ∈ keys then some v else Maps.get m k'
  | [], m => by simp
  | k :: keys, m => by
    rw [foldl_cons, get_foldl_set_none v k' keys, get_set_none]
    by_cases hk : k' ∈ keys
    · simp [hk]
    · by_cases hkk : k' = k
      · simp [hkk]
      · simp [hk, hkk]

section Runs

variable {σ τ : Type}

/-- `f` does what `g` does where there is room for it; `g` keeps `sound` and only takes room. -/
structure Follows (sound room : σ → Prop) (f g : σ → τ → σ) : Prop where
  keep : ∀ s a, sound s → sound (g s a)
  back : ∀ s a, sound s → room (g s a) → room s
  same : ∀ s a, sound s → room (g s a) → f s a = g s a

/-- **A bounded run is the unbounded one that fits at its end.** -/
theorem Follows.foldl {sound room : σ → Prop} {f g : σ → τ → σ} (h : Follows sound room f g) :
    Follows sound room (fun s as => List.foldl f s as) (fun s as => List.foldl g s as) := by
  have hkeep : ∀ (as : List τ) (s : σ), sound s → sound (as.foldl g s) := by
    intro as
    induction as with
    | nil => exact fun _ hs => hs
    | cons a as ih => exact fun s hs => ih (g s a) (h.keep s a hs)
  have hback : ∀ (as : List τ) (s : σ), sound s → room (as.foldl g s) → room s := by
    intro as
    induction as with
    | nil => exact fun _ _ hr => hr
    | cons a as ih => exact fun s hs hr => h.back s a hs (ih (g s a) (h.keep s a hs) hr)
  refine ⟨fun s as => hkeep as s, fun s as => hback as s, fun s as => ?_⟩
  induction as generalizing s with
  | nil => exact fun _ _ => rfl
  | cons a as ih =>
    intro hs hr
    rw [foldl_cons, foldl_cons, h.same s a hs (hback as (g s a) (h.keep s a hs) hr)]
    exact ih (g s a) (h.keep s a hs) hr

end Runs

end BoundedMaps
