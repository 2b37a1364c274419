import Crossgram.Lib.Maps
/-!
# Coalescing — calls that share a job under a key

A call joins the job that is active under its key, or begins one.  What is shown of calls and jobs is a relation: if a
call is in it with itself, and with every active job of its key, then every call is in it with the job it waits for.
-/
namespace Coalescing

structure State (κ α : Type) where
  active : List (κ × Nat)
  jobs : List α
  calls : List (α × Nat)

variable {κ α : Type} [DecidableEq κ] (key : α → κ)

namespace State

def empty : State κ α := ⟨[], [], []⟩

def joined (s : State κ α) (a : α) : Option α := (Maps.get s.active (key a)).bind (fun job => s.jobs[job]?)

def join (s : State κ α) (a : α) : State κ α :=
  match Maps.get s.active (key a) with
  | some job => { s with calls := s.calls ++ [(a, job)] }
  | none     =>
    { active := Maps.set s.active (key a) s.jobs.length
      jobs := s.jobs ++ [a]
      calls := s.calls ++ [(a, s.jobs.length)] }

def leave (s : State κ α) (k : κ) (job : Nat) : State κ α :=
  if Maps.get s.active k = some job then { s with active := Maps.delete s.active k } else s

end State

structure Agrees (R : α → α → Prop) (s : State κ α) : Prop where
  active : ∀ k job, Maps.get s.active k = some job → ∃ b, s.jobs[job]? = some b ∧ key b = k
  calls : ∀ call ∈ s.calls, ∃ b, s.jobs[call.2]? = some b ∧ R call.1 b

variable {key} {R : α → α → Prop} {s : State κ α} {a : α}

theorem agrees_empty : Agrees key R State.empty := ⟨fun _ _ h => (by cases h), fun _ h => (by cases h)⟩

theorem get_join {job : Nat} {b : α} (h : s.jobs[job]? = some b) : (s.join key a).jobs[job]? = some b := by
  unfold State.join
  cases Maps.get s.active (key a) with
  | some _ => exact h
  | none   =>
    obtain ⟨hlt, -⟩ := List.getElem?_eq_some_iff.1 h
    show (s.jobs ++ [a])[job]? = some b
    rw [List.getElem?_append_left hlt]
    exact h

/-- **A call keeps the agreement**, when it is related to itself and to the job of its key that it joins. -/
theorem Agrees.join (h : Agrees key R s) (hself : R a a)
    (hjoined : ∀ b, s.joined key a = some b → key b = key a → R a b) : Agrees key R (s.join key a) := by
  have hactive : ∀ k job, Maps.get s.active k = some job → ∃ b, (s.join key a).jobs[job]? = some b ∧ key b = k :=
    fun k job hk => by
      obtain ⟨b, hb, hkey⟩ := h.active k job hk
      exact ⟨b, get_join hb, hkey⟩
  have hcalls : ∀ call ∈ s.calls, ∃ b, (s.join key a).jobs[call.2]? = some b ∧ R call.1 b := fun call hcall => by
    obtain ⟨b, hb, hrel⟩ := h.calls call hcall
    exact ⟨b, get_join hb, hrel⟩
  cases hget : Maps.get s.active (key a) with
  | some job =>
    obtain ⟨b, hjob, hkey⟩ := h.active (key a) job hget
    have hrel : R a b := hjoined b (by rw [State.joined, hget, Option.bind_some, hjob]) hkey
    have hjoin : s.join key a = { s with calls := s.calls ++ [(a, job)] } := by
      unfold State.join
      rw [hget]
    rw [hjoin] at hactive hcalls ⊢
    refine ⟨hactive, fun call hcall => ?_⟩
    rcases List.mem_append.1 hcall with hcall | hcall
    · exact hcalls call hcall
    · rw [List.mem_singleton.1 hcall]
      exact ⟨b, hjob, hrel⟩
  | none =>
    have hjoin : s.join key a = ⟨Maps.set s.active (key a) s.jobs.length, s.jobs ++ [a], s.calls ++ [(a, s.jobs.length)]⟩ := by
      unfold State.join
      rw [hget]
    have hnew : (s.jobs ++ [a])[s.jobs.length]? = some a := by simp
    rw [hjoin] at hactive hcalls ⊢
    refine ⟨fun k job hk => ?_, fun call hcall => ?_⟩
    · rw [Maps.get_set] at hk
      split at hk
      · rename_i heq
        cases hk
        exact ⟨a, hnew, heq.symm⟩
      · exact hactive k job hk
    · rcases List.mem_append.1 hcall with hcall | hcall
      · exact hcalls call hcall
      · rw [List.mem_singleton.1 hcall]
        exact ⟨a, hnew, hself⟩

theorem Agrees.leave (h : Agrees key R s) (k : κ) (job : Nat) : Agrees key R (s.leave k job) := by
  unfold State.leave
  split
  · refine ⟨fun k' job' hk => ?_, h.calls⟩
    rw [Maps.get_delete] at hk
    split at hk
    · cases hk
    · exact h.active k' job' hk
  · exact h

end Coalescing
