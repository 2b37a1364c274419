import Mathlib.Logic.Basic
/-!
# Runs — calls in order and states reached step by step

A total step function answers every call: `calls` lists a run's calls in order, each with the state it met, the reply
and the state it left.  Two rules read a run off one step: `calls_forall` (what every call does) and `calls_pairwise`
(once a call has happened, what it left behind is there at every later call).  A partial step function refuses what is
not enabled: `Reachable` is the closure of its steps under a condition on each step, with the invariant rule.
-/
namespace Runs

open List

structure Call (σ α β : Type) where
  before : σ
  op : α
  reply : β
  after : σ

section Total

variable {σ α β : Type} (step : σ → α → σ × β)

def callAt (s : σ) (a : α) : Call σ α β := ⟨s, a, (step s a).2, (step s a).1⟩

def calls : σ → List α → List (Call σ α β)
  | _, []      => []
  | s, a :: as => callAt step s a :: calls (step s a).1 as

def final (s : σ) (as : List α) : σ := as.foldl (fun s a => (step s a).1) s

@[simp] theorem final_nil (s : σ) : final step s [] = s := rfl

@[simp] theorem final_cons (s : σ) (a : α) (as : List α) : final step s (a :: as) = final step (step s a).1 as := rfl

variable {step}

variable {I : σ → Prop}

theorem final_invariant (hstep : ∀ s a, I s → I (step s a).1) :
    ∀ (as : List α) (s : σ), I s → I (final step s as)
  | [], _, h => h
  | a :: as, s, h => final_invariant hstep as _ (hstep s a h)

/-- **What every call of a run does**, from an invariant and what one call does at it. -/
theorem calls_forall {P : Call σ α β → Prop} (hstep : ∀ s a, I s → I (step s a).1)
    (hcall : ∀ s a, I s → P (callAt step s a)) : ∀ (as : List α) (s : σ), I s → ∀ c ∈ calls step s as, P c
  | [], _, _, c, hc => by cases hc
  | a :: as, s, h, c, hc => by
    rcases mem_cons.1 hc with rfl | hc
    · exact hcall s a h
    · exact calls_forall hstep hcall as _ (hstep s a h) c hc

theorem calls_forall_within {P : Call σ α β → Prop} : ∀ {as : List α} {s : σ},
    (∀ s, ∀ a ∈ as, I s → I (step s a).1) → (∀ s, ∀ a ∈ as, I s → P (callAt step s a)) → I s → ∀ c ∈ calls step s as, P c
  | [], _, _, _, _, c, hc => by cases hc
  | a :: as, s, hstep, hcall, h, c, hc => by
    rcases mem_cons.1 hc with rfl | hc
    · exact hcall s a mem_cons_self h
    · exact calls_forall_within (fun s b hb => hstep s b (mem_cons_of_mem _ hb))
        (fun s b hb => hcall s b (mem_cons_of_mem _ hb)) (hstep s a mem_cons_self h) c hc

theorem map_op_calls : ∀ (as : List α) (s : σ), (calls step s as).map (·.op) = as
  | [], _      => rfl
  | a :: as, s => by
    rw [calls, map_cons, map_op_calls as]
    rfl

theorem op_mem {as : List α} {s : σ} {c : Call σ α β} (hc : c ∈ calls step s as) : c.op ∈ as := by
  have hmem : c.op ∈ (calls step s as).map (·.op) := mem_map_of_mem hc
  rwa [map_op_calls] at hmem

/-- **Once a call has happened**: what it leaves (`Q`) is kept by every step, so `R` relates it to every later call. -/
theorem calls_pairwise {Q : Call σ α β → σ → Prop} {R : Call σ α β → Call σ α β → Prop}
    (hstep : ∀ s a, I s → I (step s a).1) (hleave : ∀ s a, I s → Q (callAt step s a) (step s a).1)
    (hkeep : ∀ c s a, I s → Q c s → Q c (step s a).1) (hrel : ∀ c s a, I s → Q c s → R c (callAt step s a)) :
    ∀ (as : List α) (s : σ), I s → (calls step s as).Pairwise R
  | [], _, _ => List.Pairwise.nil
  | a :: as, s, h => by
    refine List.Pairwise.cons (fun c hc => ?_) (calls_pairwise hstep hleave hkeep hrel as _ (hstep s a h))
    exact calls_forall (I := fun t => I t ∧ Q (callAt step s a) t) (P := fun c => R (callAt step s a) c)
      (fun t b ht => ⟨hstep t b ht.1, hkeep _ t b ht.1 ht.2⟩) (fun t b ht => hrel _ t b ht.1 ht.2)
      as _ ⟨hstep s a h, hleave s a h⟩ c hc

end Total

section Partial

variable {σ α : Type} (step : σ → α → Option σ)

/-- The states a run reaches whose every step meets `ok`. -/
inductive Reachable (ok : σ → α → Prop) (s₀ : σ) : σ → Prop
  | init : Reachable ok s₀ s₀
  | tail {s s' : σ} {a : α} : Reachable ok s₀ s → ok s a → step s a = some s' → Reachable ok s₀ s'

variable {step} {ok ok' : σ → α → Prop} {s₀ s : σ}

/-- **The invariant rule**: what holds at the start and is kept by every allowed step holds of every reachable state. -/
theorem Reachable.invariant {I : σ → Prop} (h₀ : I s₀)
    (hstep : ∀ s a s', Reachable step ok s₀ s → I s → ok s a → step s a = some s' → I s')
    (h : Reachable step ok s₀ s) : I s := by
  induction h with
  | init => exact h₀
  | tail hr hok hs ih => exact hstep _ _ _ hr ih hok hs

theorem Reachable.mono (hok : ∀ s a, ok s a → ok' s a) (h : Reachable step ok s₀ s) : Reachable step ok' s₀ s := by
  induction h with
  | init => exact .init
  | tail _ ha hs ih => exact .tail ih (hok _ _ ha) hs

theorem Reachable.head {s₁ : σ} {a : α} (hok : ok s₀ a) (hs : step s₀ a = some s₁) (h : Reachable step ok s₁ s) :
    Reachable step ok s₀ s := by
  induction h with
  | init => exact .tail .init hok hs
  | tail _ ha hs' ih => exact .tail ih ha hs'

/-- The state after a list of steps, `none` when one of them is refused. -/
def run (step : σ → α → Option σ) : σ → List α → Option σ
  | s, []      => some s
  | s, a :: as => (step s a).bind (fun s' => run step s' as)

/-- **A run that goes through reaches its state**, once its steps meet the condition wherever the invariant holds. -/
theorem reachable_of_run_within {I : σ → Prop} : ∀ {as : List α} {s₁ s₂ : σ}, (∀ s, I s → ∀ a ∈ as, ok s a) →
    (∀ s, I s → ∀ a ∈ as, ∀ s', step s a = some s' → I s') → I s₁ → Reachable step ok s₀ s₁ →
    run step s₁ as = some s₂ → Reachable step ok s₀ s₂
  | [], s₁, s₂, _, _, _, hr, h => by cases h; exact hr
  | a :: as, s₁, s₂, hok, hstep, hI, hr, h => by
    rw [run, Option.bind_eq_some_iff] at h
    obtain ⟨s', hs, h⟩ := h
    exact reachable_of_run_within (fun s hs b hb => hok s hs b (mem_cons_of_mem _ hb))
      (fun s hs b hb => hstep s hs b (mem_cons_of_mem _ hb)) (hstep _ hI _ mem_cons_self _ hs)
      (.tail hr (hok _ hI _ mem_cons_self) hs) h

theorem reachable_of_run {as : List α} {s₁ s₂ : σ} (hok : ∀ s, ∀ a ∈ as, ok s a) (hr : Reachable step ok s₀ s₁)
    (h : run step s₁ as = some s₂) : Reachable step ok s₀ s₂ :=
  reachable_of_run_within (I := fun _ => True) (fun s _ => hok s) (fun _ _ _ _ _ _ => trivial) trivial hr h

theorem reachable_of_tested_run {test : σ → α → Bool} (htest : ∀ s a, test s a = true → ok s a) :
    ∀ {as : List α} {s₁ s₂ : σ}, Reachable step ok s₀ s₁ →
      run (fun s a => if test s a then step s a else none) s₁ as = some s₂ → Reachable step ok s₀ s₂
  | [], s₁, s₂, hr, h => by cases h; exact hr
  | a :: as, s₁, s₂, hr, h => by
    rw [run, Option.bind_eq_some_iff] at h
    obtain ⟨s', hs, h⟩ := h
    split at hs
    · rename_i ha
      exact reachable_of_tested_run htest (.tail hr (htest _ _ ha) hs) h
    · cases hs

end Partial

end Runs
