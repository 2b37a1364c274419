import Crossgram.UpdateReservations
/-!
# UpdateBases — a channel pts handed out as a base

`getChannelUpdateState` answers a channel without a row with the account's pts; so does the first reservation on it.
The two agree when nothing was taken from the account in between, and only then.
-/
namespace Crossgram

namespace UpdateTables

variable {J : Type} {t : UpdateTables J}

theorem channelUpdateState_final_of_ne_target : ∀ (ops : List (UpdateOp J)) (t : UpdateTables J) {s : String} {c : Nat},
    (∀ op ∈ ops, target op ≠ some (s, .channel c)) →
    (Runs.final apply t ops).channelUpdateState s c = t.channelUpdateState s c
  | [], _, _, _, _ => rfl
  | op :: ops, t, s, c, h => by
    rw [Runs.final_cons,
      channelUpdateState_final_of_ne_target ops _ (fun op hop => h op (List.mem_cons_of_mem _ hop))]
    rcases channelUpdateState_apply (t := t) op s c with hk | ⟨row, hs⟩
    · exact hk.kept
    · obtain ⟨n, hn, -⟩ := hs.taken
      exact absurd (target_of_taken hn) (h op List.mem_cons_self)

def takenInAll (s : String) : UpdateTables J → List (UpdateOp J) → Nat
  | _, []        => 0
  | t, op :: ops => t.takenFrom op s .account + takenInAll s (t.apply op).1 ops

theorem accountPts_final (s : String) : ∀ (ops : List (UpdateOp J)) (t : UpdateTables J),
    (Runs.final apply t ops).accountPts s = t.accountPts s + takenInAll s t ops
  | [], t => by simp [takenInAll]
  | op :: ops, t => by
    rw [Runs.final_cons, accountPts_final s ops, accountPts_apply, takenInAll]
    push_cast
    omega

theorem takenInAll_eq_zero (s : String) : ∀ (ops : List (UpdateOp J)) (t : UpdateTables J),
    takenInAll s t ops = 0 ↔ ∀ c ∈ Runs.calls apply t ops, c.before.takenFrom c.op s .account = 0
  | [], t => by simp [takenInAll, Runs.calls]
  | op :: ops, t => by
    rw [takenInAll, Nat.add_eq_zero_iff, takenInAll_eq_zero s ops, Runs.calls, List.forall_mem_cons]
    rfl

theorem channelPts_final_iff {s : String} {c : Nat} {ops : List (UpdateOp J)}
    (h : ∀ op ∈ ops, target op ≠ some (s, .channel c)) :
    (Runs.final apply t ops).channelPts s c = t.channelPts s c ↔
      (t.channelUpdateState s c).isSome ∨ takenInAll s t ops = 0 := by
  have hrow := channelUpdateState_final_of_ne_target ops t h
  have hpts := accountPts_final s ops t
  simp only [channelPts, hrow]
  cases t.channelUpdateState s c with
  | some row => simp
  | none =>
    simp only [Option.map_none, Option.getD_none, Option.isSome_none, Bool.false_eq_true, false_or]
    omega

/-- **A channel pts handed out is the base of the next reservation exactly when** the channel had a row of its own, or
nothing was taken from the account since. -/
theorem handed_out_base_iff (t : UpdateTables J) (s : String) (c : Nat) (now : Int) (ops : List (UpdateOp J))
    (hoff : ∀ op ∈ ops, target op ≠ some (s, .channel c)) (op : UpdateOp J) (n : Nat)
    (htaken : (Runs.final apply t ops).taken op = some (s, .channel c, n)) :
    ∃ iv, answered (Runs.callAt apply (Runs.final apply t ops) op) = some (s, .channel c, iv) ∧
      ((iv.1 - iv.2 = (t.getChannelUpdateState s c now).pts ∧ iv.1 = (t.getChannelUpdateState s c now).pts + n) ↔
        (t.channelUpdateState s c).isSome ∨
          ∀ call ∈ Runs.calls apply t ops, call.before.takenFrom call.op s .account = 0) := by
  refine ⟨_, answered_of_taken htaken, ?_⟩
  rw [getChannelUpdateState_pts, ← takenInAll_eq_zero, ← channelPts_final_iff hoff]
  simp only [counter]
  omega

theorem handed_out_base_of_row :
    ∃ iv, answered (Runs.callAt apply (Runs.final apply
        (ofCounters (J := Unit) (fun _ => none) (fun _ _ => some { pts := 5, date := 1800000000 }) 1)
        [.advancePts "session" 3 1800000001 none]) (.advancePts "session" 2 1800000002 (some 7))) =
          some ("session", .channel 7, iv) ∧ iv.1 - iv.2 = 5 ∧ iv.1 = 5 + 2 := by
  obtain ⟨iv, hiv, hiff⟩ := handed_out_base_iff
    (ofCounters (J := Unit) (fun _ => none) (fun _ _ => some { pts := 5, date := 1800000000 }) 1) "session" 7 0
    [.advancePts "session" 3 1800000001 none] (by decide) (.advancePts "session" 2 1800000002 (some 7)) 2 (by decide)
  exact ⟨iv, hiv, hiff.2 (Or.inl rfl)⟩

/-- A channel without a row is read at pts 1; one account reservation later its first reservation of 1 covers (2, 3]. -/
theorem handed_out_base_moves : ¬ ∀ (t : UpdateTables Unit) (s : String) (c : Nat) (now : Int)
    (ops : List (UpdateOp Unit)), (∀ op ∈ ops, target op ≠ some (s, .channel c)) → ∀ (op : UpdateOp Unit) (n : Nat),
    (Runs.final apply t ops).taken op = some (s, .channel c, n) → ∀ iv,
    answered (Runs.callAt apply (Runs.final apply t ops) op) = some (s, .channel c, iv) →
    iv.1 - iv.2 = (t.getChannelUpdateState s c now).pts ∧ iv.1 = (t.getChannelUpdateState s c now).pts + n := by
  intro h
  have := h (ofCounters (fun _ => none) (fun _ _ => none) 1) "session" 7 1800000000
    [.prepare "account event" "session" 1 1800000001 none 1800000001 (fun _ => true)] (by decide)
    (.prepare "channel event" "session" 1 1800000002 (some 7) 1800000002 (fun _ => true)) 1 (by decide) (3, 1) (by decide)
  exact absurd this (by decide)

end UpdateTables

end Crossgram
