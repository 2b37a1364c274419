import Mathlib.Data.Set.Defs
/-!
# Waits — who waits for whom

A set is blocked when each of its members waits for another member: none of them can go on before another one does.  What
is accessible along the waits is in no blocked set.
-/
namespace Waits

variable {α : Type} (awaits : α → α → Prop)

/-- Nobody in the set can go on first. -/
def Blocked (blocked : Set α) : Prop := blocked.Nonempty ∧ ∀ t ∈ blocked, ∃ u ∈ blocked, awaits t u

def Ends (t : α) : Prop := Acc (fun u t => awaits t u) t

variable {awaits}

theorem Ends.intro {t : α} (h : ∀ u, awaits t u → Ends awaits u) : Ends awaits t := Acc.intro t h

theorem Ends.of_none {t : α} (h : ∀ u, ¬awaits t u) : Ends awaits t := .intro (fun u hu => absurd hu (h u))

theorem Ends.not_mem {t : α} (h : Ends awaits t) {blocked : Set α} (hb : ∀ t ∈ blocked, ∃ u ∈ blocked, awaits t u) :
    t ∉ blocked := by
  induction h with
  | intro t _ ih =>
    intro ht
    obtain ⟨u, hu, haw⟩ := hb t ht
    exact ih u haw hu

/-- **Where every chain of waits ends, no set is blocked.** -/
theorem not_blocked (h : ∀ t, Ends awaits t) (blocked : Set α) : ¬Blocked awaits blocked := by
  rintro ⟨⟨t, ht⟩, hb⟩
  exact (h t).not_mem hb ht

end Waits
