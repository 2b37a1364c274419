import Crossgram.UpdateReservations
/-!
# UpdateDates — the date cursor

Channel changes are found by comparing a client's date with delivery dates, so stored dates must not go back.  Every
write stores the larger of the old date and its own, `advancePts` excepted: it stores its argument.  A run keeps its
dates monotone exactly when every `advancePts` in it was given a date at or past the one it replaced.
-/
namespace Crossgram

namespace UpdateTables

variable {J : Type} {t : UpdateTables J}

/-- No stored date goes back at a call. -/
structure DatesKept (c : Write J) : Prop where
  account : ∀ s old, c.before.updateState s = some old →
    ∃ row, c.after.updateState s = some row ∧ old.date ≤ row.date
  channel : ∀ s ch old, c.before.channelUpdateState s ch = some old →
    ∃ row, c.after.channelUpdateState s ch = some row ∧ old.date ≤ row.date

def DatedInOrder (c c' : Write J) : Prop :=
  ∀ d d', c.before.created c.op = some d → c'.before.created c'.op = some d' →
    d.platformSessionId = d'.platformSessionId → d.date ≤ d'.date

variable {op : UpdateOp J}

theorem datesKept_callAt (h : t.keepsDate op = true) : DatesKept (Runs.callAt apply t op) := by
  refine ⟨fun s old hold => ?_, fun s c old hold => ?_⟩
  · rcases updateState_apply (t := t) op s with hk | ⟨row, hs⟩
    · exact ⟨old, hk.kept.trans hold, le_refl _⟩
    · exact ⟨row, hs.stored, (hs.date old hold).2 h⟩
  · rcases channelUpdateState_apply (t := t) op s c with hk | ⟨row, hs⟩
    · exact ⟨old, hk.kept.trans hold, le_refl _⟩
    · exact ⟨row, hs.stored, (hs.date old hold).2 h⟩

theorem overwrites_of_not_keepsDate (h : t.keepsDate op = false) :
    (∃ s old, t.updateState s = some old ∧ ∃ row, t.StoresAccount op s row) ∨
    ∃ s c old, t.channelUpdateState s c = some old ∧ ∃ row, t.StoresChannel op s c row := by
  cases op with
  | advancePts s n date c =>
    simp only [keepsDate, Bool.or_eq_false_iff] at h
    obtain ⟨hn, hdate⟩ := h
    have htaken : t.taken (.advancePts s n date c) = some (s, scopeOf c, n) := by
      have hno : ¬(n = 0 ∨ maxSafeInteger < n) := by simpa [not_or] using hn
      simp [taken, hno]
    cases c with
    | none =>
      left
      cases hold : t.updateState s with
      | none => simp [hold] at hdate
      | some old =>
        refine ⟨s, old, hold, (updateState_apply (.advancePts s n date none) s).resolve_left (fun hk => ?_)⟩
        have := hk.takes
        simp only [takenFrom, htaken, scopeOf, and_self, if_true] at this
        simp [this] at hn
    | some c =>
      right
      cases hold : t.channelUpdateState s c with
      | none => simp [hold] at hdate
      | some old =>
        exact ⟨s, c, old, hold,
          (channelUpdateState_apply (.advancePts s n date (some c)) s c).resolve_left (fun hk => hk.takes n htaken)⟩
  | _ => cases h

theorem keepsDate_of_datesKept (h : DatesKept (Runs.callAt apply t op)) :
    t.keepsDate op = true := by
  by_contra hno
  rcases overwrites_of_not_keepsDate (Bool.eq_false_iff.2 hno) with ⟨s, old, hold, row, hs⟩ | ⟨s, c, old, hold, row, hs⟩
  · obtain ⟨row', hrow', hle⟩ := h.account s old hold
    cases hs.stored.symm.trans hrow'
    exact hno ((hs.date old hold).1 hle)
  · obtain ⟨row', hrow', hle⟩ := h.channel s c old hold
    cases hs.stored.symm.trans hrow'
    exact hno ((hs.date old hold).1 hle)

theorem date_of_created {d : UpdateDelivery J} (h : t.created op = some d) :
    ∃ row, (t.apply op).1.updateState d.platformSessionId = some row ∧ d.date = row.date ∧
      ∀ old, t.updateState d.platformSessionId = some old → old.date ≤ d.date := by
  rcases updateState_apply (t := t) op d.platformSessionId with hk | ⟨row, hs⟩
  · exact absurd rfl (hk.created d h)
  · obtain ⟨-, -, hdate⟩ := hs.created d h
    refine ⟨row, hs.stored, hdate, fun old hold => hdate ▸ (hs.date old hold).2 ?_⟩
    cases op with
    | prepare k s n date c now retained => rfl
    | _ => cases h

/-- The state is dated past every delivery `c` created. -/
def DatedPast (c : Write J) (t : UpdateTables J) : Prop :=
  ∀ d, c.before.created c.op = some d → ∃ row, t.updateState d.platformSessionId = some row ∧ d.date ≤ row.date

theorem datedInOrder_of_keepsDate : ∀ (ops : List (UpdateOp J)) (t : UpdateTables J),
    (∀ c ∈ Runs.calls apply t ops, c.before.keepsDate c.op = true) → (Runs.calls apply t ops).Pairwise DatedInOrder
  | [], _, _ => List.Pairwise.nil
  | op :: ops, t, h => by
    have later : ∀ (ops : List (UpdateOp J)) (t : UpdateTables J) (c : Write J), DatedPast c t →
        (∀ c' ∈ Runs.calls apply t ops, c'.before.keepsDate c'.op = true) →
        ∀ c' ∈ Runs.calls apply t ops, DatedInOrder c c' := by
      intro ops
      induction ops with
      | nil => intro t c _ _ c' hc'; cases hc'
      | cons op ops ih =>
        intro t c hpast hkeep c' hc'
        have hkept := datesKept_callAt (hkeep _ List.mem_cons_self)
        rcases List.mem_cons.1 hc' with rfl | hc'
        · intro d d' hd hd' hs
          obtain ⟨row, hrow, hle⟩ := hpast d hd
          obtain ⟨-, -, -, hmet⟩ := date_of_created hd'
          exact le_trans hle (hmet row (hs ▸ hrow))
        · refine ih (t.apply op).1 c (fun d hd => ?_) (fun x hx => hkeep x (List.mem_cons_of_mem _ hx)) c' hc'
          obtain ⟨row, hrow, hle⟩ := hpast d hd
          obtain ⟨row', hrow', hle'⟩ := hkept.account _ row hrow
          exact ⟨row', hrow', le_trans hle hle'⟩
    have htail : ∀ c ∈ Runs.calls apply (t.apply op).1 ops, c.before.keepsDate c.op = true :=
      fun c hc => h c (List.mem_cons_of_mem _ hc)
    refine List.Pairwise.cons (later ops _ _ (fun d hd => ?_) htail) (datedInOrder_of_keepsDate ops _ htail)
    obtain ⟨row, hrow, hdate, -⟩ := date_of_created hd
    exact ⟨row, hrow, le_of_eq hdate⟩

/-- **The date cursor never goes back exactly when no `advancePts` writes a date before the one it replaces.** -/
theorem dates_monotone_iff (t : UpdateTables J) (ops : List (UpdateOp J)) :
    ((∀ c ∈ Runs.calls apply t ops, DatesKept c) ∧ (Runs.calls apply t ops).Pairwise DatedInOrder) ↔
      ∀ c ∈ Runs.calls apply t ops, c.before.keepsDate c.op = true := by
  have hcall : ∀ c ∈ Runs.calls apply t ops, DatesKept c ↔ c.before.keepsDate c.op = true :=
    Runs.calls_forall (I := fun _ => True) (fun _ _ _ => trivial)
      (fun t op _ => ⟨keepsDate_of_datesKept, datesKept_callAt⟩) ops t trivial
  constructor
  · intro h c hc
    exact (hcall c hc).1 (h.1 c hc)
  · intro h
    exact ⟨fun c hc => (hcall c hc).2 (h c hc), datedInOrder_of_keepsDate ops t h⟩

/-- An old history timestamp given to `advancePts` moves the account date back. -/
theorem dates_go_back : ¬ ∀ (t : UpdateTables Unit) (ops : List (UpdateOp Unit)),
    (∀ c ∈ Runs.calls apply t ops, DatesKept c) ∧ (Runs.calls apply t ops).Pairwise DatedInOrder := by
  intro h
  have hkept := (h (ofCounters (fun _ => none) (fun _ _ => none) 1)
    [.advanceUpdateState "session" 1 1800000001, .advancePts "session" 1 1500000000 none]).1 _
      (List.mem_cons_of_mem _ List.mem_cons_self)
  exact absurd (keepsDate_of_datesKept hkept) (by decide)

end UpdateTables

end Crossgram
