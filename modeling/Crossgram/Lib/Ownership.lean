import Mathlib.Data.List.Basic
import Mathlib.Data.List.Count
/-!
# Ownership — things that are acquired, used and released

A trace of acquisitions, uses and releases is lawful when nothing is acquired twice, only what is held is used or released,
and nothing is released while a part of it is held.  In a lawful trace everything is released at most once, nothing is
used after its release, and parts are released before their owner.
-/
namespace Ownership

open List

/-- What happens to a thing; an acquisition names the owner that the thing is a part of. -/
inductive Event (τ : Type)
  | acquire (owner : Option τ) (thing : τ)
  | use (thing : τ)
  | release (thing : τ)
deriving DecidableEq

variable {τ : Type}

def Event.thing : Event τ → τ
  | .acquire _ thing => thing
  | .use thing       => thing
  | .release thing   => thing

inductive Lawful : List (Event τ) → List (Option τ × τ) → Prop
  | nil : Lawful [] []
  | acquire {trace held owner thing} : Lawful trace held → (∀ e ∈ trace, e.thing ≠ thing) →
      (∀ o, owner = some o → ∃ up, (up, o) ∈ held) → Lawful (trace ++ [.acquire owner thing]) ((owner, thing) :: held)
  | use {trace held thing} : Lawful trace held → (∃ up, (up, thing) ∈ held) → Lawful (trace ++ [.use thing]) held
  | release {trace held held' thing} : Lawful trace held → (∃ up, (up, thing) ∈ held) → (∀ x ∈ held, x.1 ≠ some thing) →
      (∀ x, x ∈ held' ↔ x ∈ held ∧ x.2 ≠ thing) → Lawful (trace ++ [.release thing]) held'

namespace Lawful

variable {trace : List (Event τ)} {held : List (Option τ × τ)} {owner : Option τ} {thing : τ}

structure Facts (trace : List (Event τ)) (held : List (Option τ × τ)) : Prop where
  held_iff : ∀ owner thing, (owner, thing) ∈ held ↔ .acquire owner thing ∈ trace ∧ .release thing ∉ trace
  owned : ∀ owner thing, (some owner, thing) ∈ held → ∃ up, (up, owner) ∈ held
  acquired : ∀ e ∈ trace, ∃ owner, .acquire owner e.thing ∈ trace

theorem acquired_concat {e : Event τ} (h : ∀ x ∈ trace, ∃ owner, .acquire owner x.thing ∈ trace)
    (he : ∃ owner, .acquire owner e.thing ∈ trace ++ [e]) :
    ∀ x ∈ trace ++ [e], ∃ owner, .acquire owner x.thing ∈ trace ++ [e] := by
  intro x hx
  rcases mem_append.1 hx with hx | hx
  · obtain ⟨o, ho⟩ := h x hx
    exact ⟨o, mem_append_left _ ho⟩
  · rw [mem_singleton.1 hx]
    exact he

theorem facts (h : Lawful trace held) : Facts trace held := by
  induction h with
  | nil => exact ⟨fun _ _ => by simp, (fun _ _ h => by cases h), (fun _ h => by cases h)⟩
  | @acquire trace held owner thing _ hfresh howner ih =>
    refine ⟨fun o t => ?_, fun o t hmem => ?_, acquired_concat ih.acquired ⟨owner, mem_append_right _ (mem_singleton_self _)⟩⟩
    · rw [mem_cons, ih.held_iff, mem_append, mem_append, mem_singleton, mem_singleton]
      constructor
      · rintro (heq | ⟨hacq, hrel⟩)
        · cases heq
          exact ⟨.inr rfl, fun hrel => hrel.elim (fun hrel => hfresh _ hrel rfl) (fun hrel => by cases hrel)⟩
        · exact ⟨.inl hacq, fun hrel' => hrel'.elim hrel (fun hrel' => by cases hrel')⟩
      · rintro ⟨hacq | hacq, hrel⟩
        · exact .inr ⟨hacq, fun hrel' => hrel (.inl hrel')⟩
        · cases hacq
          exact .inl rfl
    · rcases mem_cons.1 hmem with heq | hmem
      · obtain ⟨rfl, rfl⟩ := Prod.mk.inj heq
        obtain ⟨up, hup⟩ := howner o rfl
        exact ⟨up, mem_cons_of_mem _ hup⟩
      · obtain ⟨up, hup⟩ := ih.owned o t hmem
        exact ⟨up, mem_cons_of_mem _ hup⟩
  | @use trace held thing _ hheld ih =>
    obtain ⟨up, hup⟩ := hheld
    have hacq := ((ih.held_iff up thing).1 hup).1
    refine ⟨fun o t => ?_, ih.owned, acquired_concat ih.acquired ⟨up, mem_append_left _ hacq⟩⟩
    rw [ih.held_iff, mem_append, mem_append, mem_singleton, mem_singleton]
    simp
  | @release trace held held' thing _ hheld hparts hleft ih =>
    obtain ⟨up, hup⟩ := hheld
    have hacq := ((ih.held_iff up thing).1 hup).1
    refine ⟨fun o t => ?_, fun o t hmem => ?_, acquired_concat ih.acquired ⟨up, mem_append_left _ hacq⟩⟩
    · rw [hleft, ih.held_iff, mem_append, mem_append, mem_singleton, mem_singleton]
      constructor
      · rintro ⟨⟨hmem, hrel⟩, hne⟩
        exact ⟨.inl hmem, fun hrel' => hrel'.elim hrel (fun heq => hne (by cases heq; rfl))⟩
      · rintro ⟨hmem | hmem, hrel⟩
        · refine ⟨⟨hmem, fun hrel' => hrel (.inl hrel')⟩, ?_⟩
          rintro rfl
          exact hrel (.inr rfl)
        · cases hmem
    · obtain ⟨hmem, -⟩ := (hleft _).1 hmem
      obtain ⟨up', hup'⟩ := ih.owned o t hmem
      refine ⟨up', (hleft _).2 ⟨hup', ?_⟩⟩
      rintro rfl
      exact hparts _ hmem rfl

/-- **A thing is acquired and released at most once.** -/
theorem count_le_one [DecidableEq τ] (h : Lawful trace held) (thing : τ) :
    trace.count (.release thing) ≤ 1 ∧ ∀ owner, trace.count (.acquire owner thing) ≤ 1 := by
  induction h with
  | nil => exact ⟨Nat.zero_le _, fun _ => Nat.zero_le _⟩
  | @acquire trace held o t hl hfresh _ ih =>
    refine ⟨?_, fun owner => ?_⟩
    · rw [count_append, count_singleton, if_neg (by simp)]
      exact ih.1
    · rw [count_append]
      by_cases heq : t = thing
      · rw [count_eq_zero.2 (fun hmem => hfresh (.acquire owner thing) hmem heq.symm), Nat.zero_add]
        exact count_le_length
      · rw [count_singleton, if_neg (by simp [heq])]
        exact ih.2 owner
  | @use trace held t _ _ ih =>
    refine ⟨?_, fun owner => ?_⟩ <;> rw [count_append, count_singleton, if_neg (by simp)]
    · exact ih.1
    · exact ih.2 owner
  | @release trace held held' t hl hheld _ _ ih =>
    refine ⟨?_, fun owner => ?_⟩
    · rw [count_append]
      by_cases heq : t = thing
      · obtain ⟨up, hup⟩ := hheld
        rw [count_eq_zero.2 (heq ▸ ((hl.facts.held_iff up t).1 hup).2), Nat.zero_add]
        exact count_le_length
      · rw [count_singleton, if_neg (by simp [heq])]
        exact ih.1
    · rw [count_append, count_singleton, if_neg (by simp)]
      exact ih.2 owner

/-- **Once nothing is held, what was acquired was released exactly once.** -/
theorem count_release [DecidableEq τ] (h : Lawful trace []) (hacq : .acquire owner thing ∈ trace) :
    trace.count (.release thing) = 1 := by
  have hmem : .release thing ∈ trace := by
    by_contra hrel
    have hheld := (h.facts.held_iff owner thing).2 ⟨hacq, hrel⟩
    cases hheld
  have hpos := count_pos_iff.2 hmem
  exact Nat.le_antisymm (h.count_le_one thing).1 hpos

/-- **Nothing happens to a thing after its release.** -/
theorem after_release (h : Lawful trace held) :
    trace.Pairwise (fun a b => ∀ thing, a = .release thing → b.thing ≠ thing) := by
  have hlast : ∀ {trace : List (Event τ)} {e : Event τ}, (.release e.thing ∉ trace) →
      trace.Pairwise (fun a b => ∀ thing, a = .release thing → b.thing ≠ thing) →
        (trace ++ [e]).Pairwise (fun a b => ∀ thing, a = .release thing → b.thing ≠ thing) := by
    intro trace e hrel ih
    refine pairwise_append.2 ⟨ih, pairwise_singleton _ _, fun a ha b hb t hat => ?_⟩
    rw [mem_singleton.1 hb]
    rintro rfl
    exact hrel (hat ▸ ha)
  induction h with
  | nil => exact List.Pairwise.nil
  | acquire _ hfresh _ ih => exact hlast (fun hmem => hfresh _ hmem rfl) ih
  | use hl hheld ih =>
    obtain ⟨up, hup⟩ := hheld
    exact hlast ((hl.facts.held_iff up _).1 hup).2 ih
  | release hl hheld _ _ ih =>
    obtain ⟨up, hup⟩ := hheld
    exact hlast ((hl.facts.held_iff up _).1 hup).2 ih

/-- **Parts are released before their owner.** -/
theorem parts_first (h : Lawful trace held) {o : τ} (hacq : .acquire (some o) thing ∈ trace)
    {before after : List (Event τ)} (hsplit : trace = before ++ .release o :: after) : .release thing ∈ before := by
  induction h generalizing after with
  | nil => cases hacq
  | @acquire trace held owner t hl hfresh howner ih =>
    rcases eq_nil_or_concat after with rfl | ⟨after, e, rfl⟩
    · have hlast := append_inj_right' hsplit rfl
      cases hlast
    · rw [concat_eq_append, ← cons_append, ← append_assoc] at hsplit
      have htrace := append_inj_left' hsplit rfl
      rcases mem_append.1 hacq with hacq | hacq
      · exact ih hacq htrace
      · cases mem_singleton.1 hacq
        obtain ⟨up, hup⟩ := howner o rfl
        have hrel := ((hl.facts.held_iff up o).1 hup).2
        exact absurd (htrace ▸ mem_append_right _ mem_cons_self) hrel
  | @use trace held t hl _ ih =>
    rcases eq_nil_or_concat after with rfl | ⟨after, e, rfl⟩
    · have hlast := append_inj_right' hsplit rfl
      cases hlast
    · rw [concat_eq_append, ← cons_append, ← append_assoc] at hsplit
      have hold := (mem_append.1 hacq).resolve_right (fun h => by cases mem_singleton.1 h)
      exact ih hold (append_inj_left' hsplit rfl)
  | @release trace held held' t hl _ hparts _ ih =>
    have hold := (mem_append.1 hacq).resolve_right (fun h => by cases mem_singleton.1 h)
    rcases eq_nil_or_concat after with rfl | ⟨after, e, rfl⟩
    · have hlast := append_inj_right' hsplit rfl
      have htrace := append_inj_left' hsplit rfl
      cases hlast
      rw [← htrace]
      by_contra hrel
      exact hparts _ ((hl.facts.held_iff (some o) thing).2 ⟨hold, hrel⟩) rfl
    · rw [concat_eq_append, ← cons_append, ← append_assoc] at hsplit
      exact ih hold (append_inj_left' hsplit rfl)

end Lawful

end Ownership
