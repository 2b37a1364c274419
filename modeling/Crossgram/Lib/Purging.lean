import Mathlib.Data.List.Basic
/-!
# Purging — what an observer sees of a run does not depend on what others do in it

`purge` takes from an action what belongs to others.  When a step and the step of what is left of its action keep the
observer's relation, a run is related to its purged run (`purged`), and two runs that purge alike are related
(`purged_alike`).
-/
namespace Purging

variable {σ α : Type} (step : σ → α → σ) (purge : α → Option α)

def purgedStep (s : σ) (a : α) : σ :=
  match purge a with
  | some b => step s b
  | none   => s

variable {step purge} {ok : α → Prop} {R : σ → σ → Prop}

theorem purged (hstep : ∀ s t a, ok a → R s t → R (step s a) (purgedStep step purge t a)) :
    ∀ (as : List α) (s t : σ), (∀ a ∈ as, ok a) → R s t → R (as.foldl step s) ((as.filterMap purge).foldl step t)
  | [], _, _, _, h => h
  | a :: as, s, t, hok, h => by
    have hnext := hstep s t a (hok a List.mem_cons_self) h
    have hrest := purged hstep as (step s a) (purgedStep step purge t a) (fun b hb => hok b (List.mem_cons_of_mem _ hb)) hnext
    rw [List.foldl_cons, List.filterMap_cons]
    unfold purgedStep at hrest
    cases hp : purge a with
    | none => simpa only [hp] using hrest
    | some b => simpa only [hp, List.foldl_cons] using hrest

/-- **Two runs that purge alike.** -/
theorem purged_alike (hstep : ∀ s t a, ok a → R s t → R (step s a) (purgedStep step purge t a))
    (hsymm : ∀ s t, R s t → R t s) (htrans : ∀ s t u, R s t → R t u → R s u) {as bs : List α}
    (has : ∀ a ∈ as, ok a) (hbs : ∀ a ∈ bs, ok a) (hsame : as.filterMap purge = bs.filterMap purge) {s : σ} (h : R s s) :
    R (as.foldl step s) (bs.foldl step s) := by
  have h₁ := purged hstep as s s has h
  have h₂ := purged hstep bs s s hbs h
  rw [hsame] at h₁
  exact htrans _ _ _ h₁ (hsymm _ _ h₂)

end Purging
