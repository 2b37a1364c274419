import Crossgram.UpdateTables
import Crossgram.Lib.Intervals
/-!
# UpdateReservations — what one write takes, and the interval discipline of a run

`taken` says which counter a write takes from and how much; `created` is the delivery it puts in the log.  One spec
lemma per table (`updateState_apply`, `channelUpdateState_apply`, `entries_apply`) says all a write can do to it; the
run results of this module, `UpdateDates` and `UpdateBases` are read off them.
-/
namespace Crossgram

open Option List

namespace UpdateTables

variable {J : Type} (t : UpdateTables J)

/-- The counter a write takes from, and how much; `none` when it reserves nothing. -/
def taken : UpdateOp J → Option (String × UpdateScope × Nat)
  | .prepare k s n _ c _ _    => if (t.deliveries.get k).isSome then none else some (s, scopeOf c, n)
  | .advancePts s n _ c       => if n = 0 ∨ maxSafeInteger < n then none else some (s, scopeOf c, n)
  | .advanceUpdateState s n _ => some (s, .account, n)
  | _                         => none

def takenFrom (op : UpdateOp J) (s : String) (scope : UpdateScope) : Nat :=
  match t.taken op with
  | some (s', scope', n) => if s' = s ∧ scope' = scope then n else 0
  | none                 => 0

def created : UpdateOp J → Option (UpdateDelivery J)
  | .prepare k s n date c now _ =>
    if (t.deliveries.get k).isSome then none
    else some (t.deliveries.rowOf (t.reserveDelivery k s n date c now).2)
  | _ => none

/-- Whether a write's date stays at or past the stored date it replaces: only `advancePts` writes its argument. -/
def keepsDate : UpdateOp J → Bool
  | .advancePts s n date c =>
    n = 0 || maxSafeInteger < n || match c with
      | none   => (t.updateState s).all (fun row => row.date ≤ date)
      | some c => (t.channelUpdateState s c).all (fun row => row.date ≤ date)
  | _ => true

/-! ## One write -/

variable {t} {n : Nat} {date : Int} {c : Option Nat}

theorem apply_prepare_existing {k s : String} {now : Int}
    {retained : UpdateDelivery J → Bool} {e : UpdateDelivery J} (h : t.deliveries.get k = some e) :
    t.apply (.prepare k s n date c now retained) =
      ({ t with deliveries := t.deliveries.claim k now }, .delivery { e with claimedAt := some now }) := by
  simp only [apply, prepareUpdateDelivery, beginPrepare, h]

theorem reserveDelivery_deliveries (k s : String) (n : Nat) (date : Int) (c : Option Nat) (now : Int) :
    (t.reserveDelivery k s n date c now).1.deliveries = t.deliveries := by
  cases c <;> rfl

theorem reserveDelivery_eventKey (k s : String) (n : Nat) (date : Int) (c : Option Nat) (now : Int) :
    (t.reserveDelivery k s n date c now).2.eventKey = k := by
  cases c <;> rfl

theorem apply_prepare_new {k s : String} {now : Int}
    {retained : UpdateDelivery J → Bool} (h : t.deliveries.get k = none) :
    t.apply (.prepare k s n date c now retained) =
      ({ (t.reserveDelivery k s n date c now).1 with
          deliveries := (t.deliveries.create (t.reserveDelivery k s n date c now).2 retained).1 },
        .delivery (t.deliveries.rowOf (t.reserveDelivery k s n date c now).2)) := by
  have hk : t.deliveries.get (t.reserveDelivery k s n date c now).2.eventKey = none := by
    rw [reserveDelivery_eventKey]; exact h
  simp only [apply, prepareUpdateDelivery, beginPrepare, h, finishPrepare, reserveDelivery_deliveries,
    UpdateLog.create_of_get_none _ hk]

variable {s : String}

theorem apply_advancePts_error
    (h : n = 0 ∨ maxSafeInteger < n) : t.apply (.advancePts s n date c) = (t, .rangeError) := by
  simp only [apply, advancePts, h, if_true]

theorem apply_advancePts_deliveries : (t.apply (.advancePts s n date c)).1.deliveries = t.deliveries := by
  simp only [apply, advancePts]
  split
  · rfl
  · cases c <;> rfl

theorem created_prepare {k : String} {now : Int} {retained : UpdateDelivery J → Bool} (h : t.deliveries.get k = none) :
    t.created (.prepare k s n date c now retained) =
      some (t.deliveries.rowOf (t.reserveDelivery k s n date c now).2) := by
  simp [created, h]

variable {op : UpdateOp J}

theorem tables_apply_of_not_taken (h : t.taken op = none) :
    (t.apply op).1.updateState = t.updateState ∧ (t.apply op).1.channelUpdateState = t.channelUpdateState := by
  cases op with
  | prepare k s n date c now retained =>
    cases hk : t.deliveries.get k with
    | some e => rw [apply_prepare_existing hk]; exact ⟨rfl, rfl⟩
    | none => simp [taken, hk] at h
  | advancePts s n date c =>
    by_cases hn : n = 0 ∨ maxSafeInteger < n
    · rw [apply_advancePts_error hn]; exact ⟨rfl, rfl⟩
    · simp [taken, hn] at h
  | advanceUpdateState s n date => simp [taken] at h
  | discard k a now =>
    simp only [apply, _discardUpdateDelivery]
    split <;> exact ⟨rfl, rfl⟩
  | setPayload k p => exact ⟨rfl, rfl⟩
  | markPublished k => exact ⟨rfl, rfl⟩
  | prune retained => exact ⟨rfl, rfl⟩

theorem created_eq_none_of_not_taken (h : t.taken op = none) : t.created op = none := by
  cases op with
  | prepare k s n date c now retained =>
    cases hk : t.deliveries.get k with
    | some e => simp [created, hk]
    | none => simp [taken, hk] at h
  | _ => rfl

/-- What a write does to one account row: nothing, or it stores `row`. -/
structure StoresAccount (t : UpdateTables J) (op : UpdateOp J) (s : String) (row : UpdateStateRow) : Prop where
  stored : (t.apply op).1.updateState s = some row
  pts : row.pts = t.accountPts s + t.takenFrom op s .account
  seq : t.accountSeq s ≤ row.seq
  date : ∀ old, t.updateState s = some old → (old.date ≤ row.date ↔ t.keepsDate op = true)
  created : ∀ d, t.created op = some d → t.accountSeq s < d.seq ∧ d.seq = row.seq ∧ d.date = row.date

structure KeepsAccount (t : UpdateTables J) (op : UpdateOp J) (s : String) : Prop where
  kept : (t.apply op).1.updateState s = t.updateState s
  takes : t.takenFrom op s .account = 0
  created : ∀ d, t.created op = some d → d.platformSessionId ≠ s

theorem date_le_max {old : UpdateStateRow} (h : t.updateState s = some old) (date : Int) :
    old.date ≤ max (t.accountDate s) date := by
  have : t.accountDate s = old.date := by simp [accountDate, h]
  omega

/-- **The account table under a write**: a row is kept, or stored with what the write takes. -/
theorem updateState_apply (op : UpdateOp J) (s : String) :
    t.KeepsAccount op s ∨ ∃ row, t.StoresAccount op s row := by
  cases htaken : t.taken op with
  | none =>
    refine Or.inl ⟨congrFun (tables_apply_of_not_taken htaken).1 s, by simp [takenFrom, htaken], fun d hd => ?_⟩
    rw [created_eq_none_of_not_taken htaken] at hd; cases hd
  | some tk =>
    cases op with
    | prepare k s' n date c now retained =>
      cases hk : t.deliveries.get k with
      | some e => simp [taken, hk] at htaken
      | none =>
        have hafter : (t.apply (.prepare k s' n date c now retained)).1.updateState =
            (t.reserveDelivery k s' n date c now).1.updateState := by rw [apply_prepare_new hk]
        by_cases hs : s' = s
        · subst hs
          right
          cases c
          all_goals
            refine ⟨_, ⟨by rw [hafter]; exact setUpdateState_self _ _, ?_, ?_, ?_, ?_⟩⟩
            · simp [takenFrom, taken, hk, scopeOf]
            · exact Nat.le_succ _
            · exact fun old hold => iff_of_true (date_le_max hold date) rfl
            · intro d hd
              rw [created_prepare hk] at hd
              cases hd
              exact ⟨Nat.lt_succ_self _, rfl, rfl⟩
        · left
          refine ⟨?_, ?_, ?_⟩
          · rw [hafter]
            cases c <;> exact setUpdateState_of_ne (Ne.symm hs) _
          · simp [takenFrom, taken, hk, hs]
          · intro d hd
            rw [created_prepare hk] at hd
            cases hd
            cases c <;> exact hs
    | advancePts s' n date c =>
      by_cases hn : n = 0 ∨ maxSafeInteger < n
      · simp [taken, hn] at htaken
      · cases c with
        | some c =>
          left
          refine ⟨by simp [apply, advancePts, hn], by simp [takenFrom, taken, hn, scopeOf], fun d hd => ?_⟩
          cases hd
        | none =>
          by_cases hs : s' = s
          · subst hs
            right
            refine ⟨_, ⟨by simp only [apply, advancePts, hn, if_false]; exact setUpdateState_self _ _, ?_, ?_, ?_, ?_⟩⟩
            · simp [takenFrom, taken, hn, scopeOf]
            · exact le_refl _
            · intro old hold
              push Not at hn
              simp [keepsDate, hold, hn.1, hn.2]
            · exact fun d hd => by cases hd
          · left
            refine ⟨?_, by simp [takenFrom, taken, hn, hs], fun d hd => by cases hd⟩
            simp only [apply, advancePts, hn, if_false]
            exact setUpdateState_of_ne (Ne.symm hs) _
    | advanceUpdateState s' n date =>
      by_cases hs : s' = s
      · subst hs
        right
        refine ⟨_, ⟨setUpdateState_self _ _, ?_, ?_, ?_, ?_⟩⟩
        · simp [takenFrom, taken]
        · exact Nat.le_succ _
        · exact fun old hold => iff_of_true (date_le_max hold date) rfl
        · exact fun d hd => by cases hd
      · exact Or.inl ⟨setUpdateState_of_ne (Ne.symm hs) _, by simp [takenFrom, taken, hs], fun d hd => by cases hd⟩
    | setPayload k p => cases htaken
    | markPublished k => cases htaken
    | discard k a now => cases htaken
    | prune retained => cases htaken

/-- What a write does to one channel row: it stores `row`, past what it takes. -/
structure StoresChannel (t : UpdateTables J) (op : UpdateOp J) (s : String) (c : Nat) (row : ChannelUpdateStateRow) :
    Prop where
  stored : (t.apply op).1.channelUpdateState s c = some row
  taken : ∃ n, t.taken op = some (s, .channel c, n) ∧ row.pts = t.channelPts s c + n
  date : ∀ old, t.channelUpdateState s c = some old → (old.date ≤ row.date ↔ t.keepsDate op = true)

structure KeepsChannel (t : UpdateTables J) (op : UpdateOp J) (s : String) (c : Nat) : Prop where
  kept : (t.apply op).1.channelUpdateState s c = t.channelUpdateState s c
  takes : ∀ n, t.taken op ≠ some (s, .channel c, n)

theorem channelDate_le_max {c : Nat} {old : ChannelUpdateStateRow}
    (h : t.channelUpdateState s c = some old) (date : Int) : old.date ≤ max (t.channelDate s c) date := by
  have : t.channelDate s c = old.date := by simp [channelDate, h]
  omega

/-- **The channel table under a write**: a row is kept, or stored by a write that takes from that channel. -/
theorem channelUpdateState_apply (op : UpdateOp J) (s : String) (c : Nat) :
    t.KeepsChannel op s c ∨ ∃ row, t.StoresChannel op s c row := by
  cases htaken : t.taken op with
  | none => exact Or.inl ⟨by rw [(tables_apply_of_not_taken htaken).2], fun n h => by rw [htaken] at h; cases h⟩
  | some tk =>
    have other : ∀ {s' : String} {c' : Nat} {row : ChannelUpdateStateRow} (u : UpdateTables J), ¬(s' = s ∧ c' = c) →
        u.channelUpdateState = t.channelUpdateState →
        (u.setChannelUpdateState s' c' row).channelUpdateState s c = t.channelUpdateState s c := by
      intro s' c' row u hne hu
      rw [setChannelUpdateState_of_ne (fun h1 h2 => hne ⟨h1.symm, h2.symm⟩), hu]
    cases op with
    | prepare k s' n date c' now retained =>
      cases hk : t.deliveries.get k with
      | some e => simp [UpdateTables.taken, hk] at htaken
      | none =>
        have hafter : (t.apply (.prepare k s' n date c' now retained)).1.channelUpdateState =
            (t.reserveDelivery k s' n date c' now).1.channelUpdateState := by rw [apply_prepare_new hk]
        cases c' with
        | none => exact Or.inl ⟨by rw [hafter]; rfl, by simp [UpdateTables.taken, hk, scopeOf]⟩
        | some c' =>
          by_cases hsc : s' = s ∧ c' = c
          · obtain ⟨rfl, rfl⟩ := hsc
            right
            refine ⟨_, ⟨by rw [hafter]; exact setChannelUpdateState_self _ _ _, ⟨n, ?_, rfl⟩, ?_⟩⟩
            · simp [UpdateTables.taken, hk, scopeOf]
            · exact fun old hold => iff_of_true (channelDate_le_max hold _) rfl
          · left
            refine ⟨by rw [hafter]; exact other _ hsc rfl, ?_⟩
            intro m hm
            simp only [UpdateTables.taken, hk, scopeOf, isSome_none, Bool.false_eq_true, if_false,
              Option.some.injEq, Prod.mk.injEq, UpdateScope.channel.injEq] at hm
            exact hsc ⟨hm.1, hm.2.1⟩
    | advancePts s' n date c' =>
      by_cases hn : n = 0 ∨ maxSafeInteger < n
      · simp [UpdateTables.taken, hn] at htaken
      · cases c' with
        | none =>
          exact Or.inl ⟨by simp only [apply, advancePts, hn, if_false]; rfl, by simp [UpdateTables.taken, hn, scopeOf]⟩
        | some c' =>
          by_cases hsc : s' = s ∧ c' = c
          · obtain ⟨rfl, rfl⟩ := hsc
            right
            refine ⟨_, ⟨by simp only [apply, advancePts, hn, if_false]; exact setChannelUpdateState_self _ _ _,
              ⟨n, ?_, rfl⟩, ?_⟩⟩
            · simp [UpdateTables.taken, hn, scopeOf]
            · intro old hold
              push Not at hn
              simp [keepsDate, hold, hn.1, hn.2]
          · left
            refine ⟨by simp only [apply, advancePts, hn, if_false]; exact other _ hsc rfl, ?_⟩
            intro m hm
            simp only [UpdateTables.taken, hn, scopeOf, if_false,
              Option.some.injEq, Prod.mk.injEq, UpdateScope.channel.injEq] at hm
            exact hsc ⟨hm.1, hm.2.1⟩
    | advanceUpdateState s' n date => exact Or.inl ⟨rfl, by simp [UpdateTables.taken]⟩
    | setPayload k p => cases htaken
    | markPublished k => cases htaken
    | discard k a now => cases htaken
    | prune retained => cases htaken

/-! ## The log under a write -/

/-- **The log under a write**: no entry is rewritten or moved; one is added, at the end, when a delivery is created. -/
theorem entries_apply (op : UpdateOp J) :
    List.Sublist (t.apply op).1.deliveries.entries
      (t.deliveries.entries ++ (t.created op).toList.map (fun d => (d.toReservation, d.messageId))) := by
  have same : ∀ l : List (Reservation × Nat), List.Sublist l (l ++ []) := fun l => sublist_append_left _ _
  cases op with
  | prepare k s n date c now retained =>
    cases hk : t.deliveries.get k with
    | some e =>
      rw [apply_prepare_existing hk]
      simp only [created, hk, isSome_some, if_true, toList_none, map_nil, UpdateLog.claim,
        UpdateLog.entries_modify]
      exact same _
    | none =>
      have hkey : t.deliveries.get (t.reserveDelivery k s n date c now).2.eventKey = none := by
        rw [reserveDelivery_eventKey]; exact hk
      rw [apply_prepare_new hk]
      rw [created_prepare hk, toList_some, UpdateLog.create_of_get_none _ hkey]
      refine (UpdateLog.entries_prune _ _).trans ?_
      rw [UpdateLog.entries_append]
      exact List.Sublist.refl _
  | advancePts s n date c =>
    rw [apply_advancePts_deliveries]
    exact same _
  | advanceUpdateState s n date => exact same _
  | setPayload k p =>
    simp only [apply, setUpdatePayload, UpdateLog.setPayload, UpdateLog.entries_modify]
    exact same _
  | markPublished k =>
    simp only [apply, markUpdatePublished, UpdateLog.markPublished, UpdateLog.entries_modify]
    exact same _
  | discard k a now =>
    refine List.Sublist.trans ?_ (same _)
    simp only [apply, _discardUpdateDelivery]
    split
    · exact UpdateLog.entries_prune _ _
    · exact List.Sublist.refl _
  | prune retained => exact (UpdateLog.entries_prune _ _).trans (same _)

theorem nextMessageId_apply (op : UpdateOp J) :
    (t.apply op).1.deliveries.nextMessageId =
      t.deliveries.nextMessageId + if (t.created op).isSome then 1 else 0 := by
  cases op with
  | prepare k s n date c now retained =>
    cases hk : t.deliveries.get k with
    | some e =>
      rw [apply_prepare_existing hk]
      simp [created, hk, UpdateLog.claim]
    | none =>
      have hkey : t.deliveries.get (t.reserveDelivery k s n date c now).2.eventKey = none := by
        rw [reserveDelivery_eventKey]; exact hk
      rw [apply_prepare_new hk]
      simp [created, hk, UpdateLog.create_of_get_none _ hkey]
  | advancePts s n date c =>
    rw [apply_advancePts_deliveries]
    rfl
  | discard k a now =>
    simp only [apply, _discardUpdateDelivery]
    split <;> rfl
  | advanceUpdateState s n date => rfl
  | setPayload k p => rfl
  | markPublished k => rfl
  | prune retained => rfl

/-! ## Counters under a write -/

theorem accountPts_apply (op : UpdateOp J) (s : String) :
    (t.apply op).1.accountPts s = t.accountPts s + t.takenFrom op s .account := by
  rcases updateState_apply (t := t) op s with h | ⟨row, h⟩
  · rw [accountPts, h.kept, h.takes]
    exact (Int.add_zero _).symm
  · rw [accountPts, h.stored]
    exact h.pts

theorem channelPts_apply_of_taken {c n : Nat}
    (h : t.taken op = some (s, .channel c, n)) : (t.apply op).1.channelPts s c = t.channelPts s c + n := by
  rcases channelUpdateState_apply (t := t) op s c with hk | ⟨row, hs⟩
  · exact absurd h (hk.takes n)
  · obtain ⟨m, hm, hpts⟩ := hs.taken
    rw [h] at hm; cases hm
    rw [channelPts, hs.stored]
    exact hpts

variable {scope : UpdateScope}

theorem counter_apply_of_taken
    (h : t.taken op = some (s, scope, n)) : (t.apply op).1.counter s scope = t.counter s scope + n := by
  cases scope with
  | account =>
    have := accountPts_apply (t := t) op s
    simp only [takenFrom, h, and_self, if_true] at this
    exact this
  | channel c => exact channelPts_apply_of_taken h

/-- **Counters never go back**, the borrowed ones included. -/
theorem counter_le_apply (op : UpdateOp J) (s : String) (scope : UpdateScope) :
    t.counter s scope ≤ (t.apply op).1.counter s scope := by
  have account : t.accountPts s ≤ (t.apply op).1.accountPts s := by
    rw [accountPts_apply]
    omega
  cases scope with
  | account => exact account
  | channel c =>
    simp only [counter]
    rcases channelUpdateState_apply (t := t) op s c with hk | ⟨row, hs⟩
    · simp only [channelPts, hk.kept]
      cases t.channelUpdateState s c with
      | none => exact account
      | some row => exact le_refl _
    · obtain ⟨m, hm, -⟩ := hs.taken
      rw [channelPts_apply_of_taken hm]
      omega

theorem accountSeq_le_apply (op : UpdateOp J) (s : String) : t.accountSeq s ≤ (t.apply op).1.accountSeq s := by
  rcases updateState_apply (t := t) op s with h | ⟨row, h⟩
  · exact le_of_eq (by simp only [accountSeq, h.kept])
  · have := h.seq
    simp only [accountSeq, h.stored] at this ⊢
    exact this

variable {d : UpdateDelivery J}

/-- **What a created delivery is**: the interval its counter moves over, the next `seq`, the next message id. -/
theorem created_spec (h : t.created op = some d) :
    t.taken op = some (d.platformSessionId, d.scope, d.ptsCount) ∧
    d.pts = t.counter d.platformSessionId d.scope + d.ptsCount ∧ d.messageId = t.deliveries.nextMessageId ∧
    (t.apply op).2 = .delivery d ∧ t.deliveries.get d.eventKey = none := by
  cases op with
  | prepare k s n date c now retained =>
    cases hk : t.deliveries.get k with
    | some e => simp [created, hk] at h
    | none =>
      rw [created_prepare hk] at h
      cases h
      rw [apply_prepare_new hk]
      cases c with
      | none =>
        refine ⟨by simp [taken, hk, reserveDelivery, UpdateLog.rowOf], ?_, rfl, rfl, hk⟩
        simp [reserveDelivery, UpdateLog.rowOf, scopeOf, counter]
      | some c => exact ⟨by simp [taken, hk, reserveDelivery, UpdateLog.rowOf], rfl, rfl, rfl, hk⟩
  | _ => cases h

/-! ## The calls of a run -/

abbrev Write (J : Type) := Runs.Call (UpdateTables J) (UpdateOp J) (UpdateReply J)

def answered (c : Write J) : Option (String × UpdateScope × (Int × Nat)) :=
  match c.op, c.reply with
  | .advancePts s n _ c, .state row        => some (s, scopeOf c, (row.pts, n))
  | .advancePts s n _ c, .channelState row => some (s, scopeOf c, (row.pts, n))
  | .advanceUpdateState s n _, .state row  => some (s, .account, (row.pts, n))
  | _, .delivery d                         => some (d.platformSessionId, d.scope, (d.pts, d.ptsCount))
  | _, _                                   => none

def eventKeyOf (c : Write J) : Option String :=
  match c.op with
  | .prepare k _ _ _ _ _ _ => some k
  | _                      => none

def reserves (c : Write J) : Prop := (c.before.taken c.op).isSome

/-- **What a call answers**: the interval its counter moved over, or the interval of a row under its key. -/
theorem answered_callAt {iv : Int × Nat} (h : answered (Runs.callAt apply t op) = some (s, scope, iv)) :
    (∃ n, t.taken op = some (s, scope, n) ∧ iv = (t.counter s scope + n, n)) ∨
    (t.taken op = none ∧ ∃ e ∈ t.deliveries.rows, eventKeyOf (Runs.callAt apply t op) = some e.eventKey ∧
      e.platformSessionId = s ∧ e.scope = scope ∧ iv = (e.pts, e.ptsCount)) := by
  cases op with
  | prepare k s' n date c now retained =>
    cases hk : t.deliveries.get k with
    | some e =>
      right
      simp only [Runs.callAt, answered, apply_prepare_existing hk, Option.some.injEq, Prod.mk.injEq] at h
      obtain ⟨hs, hscope, hiv⟩ := h
      obtain ⟨hmem, hkey⟩ := UpdateLog.mem_of_get hk
      refine ⟨by simp [taken, hk], e, hmem, ?_, hs, hscope, hiv.symm⟩
      rw [hkey]
      rfl
    | none =>
      left
      obtain ⟨htaken, hpts, -, -, -⟩ := created_spec (created_prepare hk)
      simp only [Runs.callAt, answered, apply_prepare_new hk, Option.some.injEq, Prod.mk.injEq] at h
      obtain ⟨rfl, rfl, rfl⟩ := h
      exact ⟨_, htaken, by rw [← hpts]⟩
  | advancePts s' n date c =>
    by_cases hn : n = 0 ∨ maxSafeInteger < n
    · simp [Runs.callAt, answered, apply_advancePts_error hn] at h
    · left
      cases c with
      | none =>
        simp only [Runs.callAt, answered, apply, advancePts, hn, if_false, Option.some.injEq, Prod.mk.injEq] at h
        obtain ⟨rfl, rfl, rfl⟩ := h
        exact ⟨n, by simp [taken, hn], rfl⟩
      | some c =>
        simp only [Runs.callAt, answered, apply, advancePts, hn, if_false, Option.some.injEq, Prod.mk.injEq] at h
        obtain ⟨rfl, rfl, rfl⟩ := h
        exact ⟨n, by simp [taken, hn], rfl⟩
  | advanceUpdateState s' n date =>
    left
    simp only [Runs.callAt, answered, apply, advanceUpdateState, Option.some.injEq, Prod.mk.injEq] at h
    obtain ⟨rfl, rfl, rfl⟩ := h
    exact ⟨n, rfl, rfl⟩
  | setPayload k p => simp [Runs.callAt, answered, apply] at h
  | markPublished k => simp [Runs.callAt, answered, apply] at h
  | discard k a now => simp [Runs.callAt, answered, apply] at h
  | prune retained => simp [Runs.callAt, answered, apply] at h

theorem answered_of_taken (h : t.taken op = some (s, scope, n)) :
    answered (Runs.callAt apply t op) = some (s, scope, (t.counter s scope + n, n)) := by
  obtain ⟨iv, hiv⟩ : ∃ iv, answered (Runs.callAt apply t op) = some (s, scope, iv) := by
    cases op with
    | prepare k s' m date c now retained =>
      cases hk : t.deliveries.get k with
      | some e => simp [taken, hk] at h
      | none =>
        simp only [taken, hk, isSome_none, Bool.false_eq_true, if_false, Option.some.injEq,
          Prod.mk.injEq] at h
        obtain ⟨rfl, rfl, rfl⟩ := h
        cases c <;> exact ⟨_, by simp only [Runs.callAt, answered, apply_prepare_new hk]; rfl⟩
    | advancePts s' m date c =>
      by_cases hn : m = 0 ∨ maxSafeInteger < m
      · simp [taken, hn] at h
      · simp only [taken, hn, if_false, Option.some.injEq, Prod.mk.injEq] at h
        obtain ⟨rfl, rfl, rfl⟩ := h
        cases c <;> exact ⟨_, by simp only [Runs.callAt, answered, apply, advancePts, hn, if_false]; rfl⟩
    | advanceUpdateState s' m date => cases h; exact ⟨_, rfl⟩
    | setPayload k p => cases h
    | markPublished k => cases h
    | discard k a now => cases h
    | prune retained => cases h
  rcases answered_callAt hiv with ⟨m, hm, rfl⟩ | ⟨hnone, -⟩
  · rw [h] at hm
    cases hm
    exact hiv
  · rw [h] at hnone
    cases hnone

/-! ## The interval discipline -/

/-- In one scope of one session, `e'` starts where `e` ended or later. -/
def Precedes (e e' : Reservation × Nat) : Prop :=
  e.1.platformSessionId = e'.1.platformSessionId → e.1.scope = e'.1.scope → e.1.pts ≤ e'.1.pts - e'.1.ptsCount

structure Disciplined (t : UpdateTables J) : Prop where
  below : ∀ e ∈ t.deliveries.entries, e.1.pts ≤ t.counter e.1.platformSessionId e.1.scope
  ordered : t.deliveries.entries.Pairwise Precedes

theorem Disciplined.step {t : UpdateTables J} (h : Disciplined t) (op : UpdateOp J) : Disciplined (t.apply op).1 := by
  have hsub := entries_apply (t := t) op
  have hcreated : ∀ e ∈ (t.created op).toList.map (fun d => (d.toReservation, d.messageId)),
      e.1.pts = t.counter e.1.platformSessionId e.1.scope + e.1.ptsCount ∧
      e.1.pts = (t.apply op).1.counter e.1.platformSessionId e.1.scope := by
    intro e he
    obtain ⟨d, hd, rfl⟩ := mem_map.1 he
    obtain ⟨htaken, hpts, -, -, -⟩ := created_spec (mem_toList.1 hd)
    exact ⟨hpts, by rw [counter_apply_of_taken htaken]; exact hpts⟩
  constructor
  · intro e he
    rcases mem_append.1 (hsub.subset he) with he | he
    · exact le_trans (h.below e he) (counter_le_apply op _ _)
    · exact le_of_eq (hcreated e he).2
  · refine List.Pairwise.sublist hsub (pairwise_append.2 ⟨h.ordered, ?_, fun e he e' he' hs hc => ?_⟩)
    · cases t.created op <;> simp
    · have hbelow := h.below e he
      have hpts := (hcreated e' he').1
      rw [hs, hc] at hbelow
      omega

theorem Disciplined.apart_of_mem {t : UpdateTables J} (h : Disciplined t) {d e : UpdateDelivery J}
    (hd : d ∈ t.deliveries.rows) (he : e ∈ t.deliveries.rows) (hne : d ≠ e)
    (hs : d.platformSessionId = e.platformSessionId) (hc : d.scope = e.scope) :
    Intervals.Apart (d.pts, d.ptsCount) (e.pts, e.ptsCount) := by
  rcases Windows.rel_or_rel_of_mem (pairwise_map.1 h.ordered) hd he hne with hlt | hlt
  · exact Or.inl (hlt hs hc)
  · exact Or.inr (hlt hs.symm hc.symm)

/-- What a call's answer leaves behind: its interval lies below the counter and off every row of another key, its
`seq` is spent, and the row it answered keeps its reservation. -/
structure Left (c : Write J) (t : UpdateTables J) : Prop where
  below : ∀ s scope iv, answered c = some (s, scope, iv) → iv.1 ≤ t.counter s scope
  apart : ∀ s scope iv, answered c = some (s, scope, iv) → ∀ e ∈ t.deliveries.entries, e.1.platformSessionId = s →
    e.1.scope = scope → eventKeyOf c ≠ some e.1.eventKey → Intervals.Apart iv (e.1.pts, e.1.ptsCount)
  seq : ∀ d, c.before.created c.op = some d → d.seq ≤ t.accountSeq d.platformSessionId
  idFresh : ∀ d, c.reply = .delivery d → d.messageId < t.deliveries.nextMessageId
  row : ∀ d, c.reply = .delivery d → ∀ e ∈ t.deliveries.entries, e.2 = d.messageId → e.1 = d.toReservation

theorem mem_entries_of_mem {l : UpdateLog J} (hd : d ∈ l.rows) :
    (d.toReservation, d.messageId) ∈ l.entries := mem_map.2 ⟨d, hd, rfl⟩

theorem entries_apply_cases {e : Reservation × Nat} (he : e ∈ (t.apply op).1.deliveries.entries) :
    e ∈ t.deliveries.entries ∨ ∃ d, t.created op = some d ∧ e = (d.toReservation, d.messageId) := by
  rcases mem_append.1 ((entries_apply op).subset he) with he | he
  · exact Or.inl he
  · obtain ⟨d, hd, rfl⟩ := mem_map.1 he
    exact Or.inr ⟨d, mem_toList.1 hd, rfl⟩

theorem Left.step {c : Write J} (h : Left c t) (op : UpdateOp J) : Left c (t.apply op).1 := by
  have hnext : t.deliveries.nextMessageId ≤ (t.apply op).1.deliveries.nextMessageId := by
    rw [nextMessageId_apply]; omega
  refine ⟨fun s scope iv hc => le_trans (h.below s scope iv hc) (counter_le_apply op s scope), ?_,
    fun d hd => le_trans (h.seq d hd) (accountSeq_le_apply op _), fun d hd => lt_of_lt_of_le (h.idFresh d hd) hnext, ?_⟩
  · intro s scope iv hc e he hs hscope hkey
    rcases entries_apply_cases he with he | ⟨d, hd, rfl⟩
    · exact h.apart s scope iv hc e he hs hscope hkey
    · subst hs hscope
      have hbelow := h.below _ _ iv hc
      have hpts := (created_spec hd).2.1
      exact Or.inl (by simp only at hbelow ⊢; omega)
  · intro d hd e he hid
    rcases entries_apply_cases he with he | ⟨x, hx, rfl⟩
    · exact h.row d hd e he hid
    · have := h.idFresh d hd
      have := (created_spec hx).2.2.1
      simp only at hid
      omega

theorem reply_delivery_cases (h : (t.apply op).2 = .delivery d) :
    t.created op = some d ∨ (t.created op = none ∧ ∃ e ∈ t.deliveries.rows, e.toReservation = d.toReservation ∧
      e.messageId = d.messageId ∧ eventKeyOf (Runs.callAt apply t op) = some e.eventKey) := by
  cases op with
  | prepare k s n date c now retained =>
    cases hk : t.deliveries.get k with
    | some e =>
      rw [apply_prepare_existing hk] at h
      cases h
      obtain ⟨hmem, hkey⟩ := UpdateLog.mem_of_get hk
      exact Or.inr ⟨by simp [created, hk], e, hmem, rfl, rfl, by rw [hkey]; rfl⟩
    | none =>
      rw [apply_prepare_new hk] at h
      cases h
      exact Or.inl (by simp [created, hk])
  | advancePts s n date c =>
    simp only [apply, advancePts] at h
    split at h
    · cases h
    · cases c <;> cases h
  | advanceUpdateState s n date => cases h
  | setPayload k p => cases h
  | markPublished k => cases h
  | discard k a now => cases h
  | prune retained => cases h

theorem left_callAt (hI : Disciplined t) (op : UpdateOp J) : Left (Runs.callAt apply t op) (t.apply op).1 := by
  refine ⟨?_, ?_, ?_, ?_, ?_⟩
  · intro s scope iv hc
    rcases answered_callAt hc with ⟨n, htaken, rfl⟩ | ⟨-, e, he, -, rfl, rfl, rfl⟩
    · exact le_of_eq (counter_apply_of_taken htaken).symm
    · exact le_trans (hI.below _ (mem_entries_of_mem he)) (counter_le_apply op _ _)
  · intro s scope iv hc e he hs hscope hkey
    rcases answered_callAt hc with ⟨n, htaken, rfl⟩ | ⟨htaken, x, hx, hxkey, rfl, rfl, rfl⟩
    · rcases entries_apply_cases he with he | ⟨d, hd, rfl⟩
      · have := hI.below e he
        rw [hs, hscope] at this
        exact Or.inr (by simp only; omega)
      · -- the created row is the row of the call's own key
        cases op with
        | prepare k s' m date c now retained =>
          cases hk : t.deliveries.get k with
          | some e => simp [created, hk] at hd
          | none =>
            rw [created_prepare hk] at hd
            cases hd
            exact absurd (congrArg some (reserveDelivery_eventKey k s' m date c now).symm) hkey
        | _ => cases hd
    · rcases entries_apply_cases he with he | ⟨d, hd, rfl⟩
      · obtain ⟨y, hy, rfl⟩ := mem_map.1 he
        refine hI.apart_of_mem hx hy (fun hxy => hkey ?_) hs.symm hscope.symm
        rw [hxkey, hxy]
      · rw [created_eq_none_of_not_taken htaken] at hd; cases hd
  · intro d hd
    rcases updateState_apply (t := t) op d.platformSessionId with h | ⟨row, h⟩
    · exact absurd rfl (h.created d hd)
    · obtain ⟨-, hseq, -⟩ := h.created d hd
      simp only [accountSeq, h.stored]
      exact le_of_eq hseq
  · intro d hd
    have hnext := nextMessageId_apply (t := t) op
    rcases reply_delivery_cases hd with hcr | ⟨-, e, he, -, hid, -⟩
    · have := (created_spec hcr).2.2.1
      simp only [hcr, isSome_some, if_true] at hnext
      omega
    · have := t.deliveries.idsFresh e he
      omega
  · intro d hd e he hid
    rcases reply_delivery_cases hd with hcr | ⟨hcr, x, hx, hres, hxid, -⟩
    · rcases entries_apply_cases he with he | ⟨y, hy, rfl⟩
      · obtain ⟨z, hz, rfl⟩ := mem_map.1 he
        have := t.deliveries.idsFresh z hz
        have := (created_spec hcr).2.2.1
        simp only at hid
        omega
      · rw [hcr] at hy; cases hy; rfl
    · rcases entries_apply_cases he with he | ⟨y, hy, rfl⟩
      · obtain ⟨z, hz, rfl⟩ := mem_map.1 he
        rw [UpdateLog.eq_of_messageId hz hx (hid.trans hxid.symm)]
        exact hres
      · rw [hcr] at hy; cases hy

/-- Two calls of a run, `c` before `c'`: their answers lie apart unless one event key was given them, a new reservation
lies above every answer before it, `seq` increases, and a row that still exists is answered as it was reserved. -/
structure InOrder (c c' : Write J) : Prop where
  apart : ∀ s scope iv iv', answered c = some (s, scope, iv) → answered c' = some (s, scope, iv') →
    eventKeyOf c = none ∨ eventKeyOf c ≠ eventKeyOf c' → Intervals.Apart iv iv'
  increase : ∀ s scope iv iv', answered c = some (s, scope, iv) → answered c' = some (s, scope, iv') →
    reserves c' → iv.1 ≤ iv'.1 - iv'.2
  seq : ∀ d d', c.before.created c.op = some d → c'.before.created c'.op = some d' →
    d.platformSessionId = d'.platformSessionId → d.seq < d'.seq
  repeated : ∀ d, c.reply = .delivery d → eventKeyOf c' = some d.eventKey →
    (∃ e ∈ c'.before.deliveries.rows, e.messageId = d.messageId) →
    ∃ d', c'.reply = .delivery d' ∧ d'.messageId = d.messageId ∧ d'.toReservation = d.toReservation

theorem Left.inOrder {c : Write J} (h : Left c t) (op : UpdateOp J) :
    InOrder c (Runs.callAt apply t op) := by
  have above : ∀ s scope iv iv', answered c = some (s, scope, iv) →
      answered (Runs.callAt apply t op) = some (s, scope, iv') → (t.taken op).isSome → iv.1 ≤ iv'.1 - iv'.2 := by
    intro s scope iv iv' hc hc' hres
    rcases answered_callAt hc' with ⟨n, -, rfl⟩ | ⟨hnone, -⟩
    · have := h.below s scope iv hc
      simp only
      omega
    · rw [hnone] at hres; cases hres
  refine ⟨fun s scope iv iv' hc hc' hkey => ?_, above, fun d d' hd hd' hs => ?_, fun d hd hkey hrow => ?_⟩
  · rcases answered_callAt hc' with ⟨n, htaken, rfl⟩ | ⟨-, e, he, hek, rfl, rfl, rfl⟩
    · exact Or.inl (above s scope iv _ hc hc' (by simp [htaken]))
    · refine h.apart _ _ iv hc _ (mem_entries_of_mem he) rfl rfl (fun heq => ?_)
      rcases hkey with hkey | hkey
      · rw [hkey] at heq; cases heq
      · exact hkey (heq.trans hek.symm)
  · have hle := h.seq d hd
    rcases updateState_apply (t := t) op d'.platformSessionId with hk | ⟨row, hs'⟩
    · exact absurd rfl (hk.created d' hd')
    · have := (hs'.created d' hd').1
      rw [hs] at hle
      omega
  · obtain ⟨e, he, hid⟩ := hrow
    have hres : e.toReservation = d.toReservation := h.row d hd _ (mem_entries_of_mem he) hid
    have hget : t.deliveries.get d.eventKey = some e := by
      rw [← hres]
      exact UpdateLog.get_of_mem he
    cases op with
    | prepare k s n date c now retained =>
      have hk : k = d.eventKey := Option.some.inj hkey
      rw [← hk] at hget
      refine ⟨{ e with claimedAt := some now }, ?_, hid, hres⟩
      exact congrArg Prod.snd (apply_prepare_existing hget)
    | _ => cases hkey

/-! ## Scopes apart -/

def target : UpdateOp J → Option (String × UpdateScope)
  | .prepare _ s _ _ c _ _    => some (s, scopeOf c)
  | .advancePts s _ _ c       => some (s, scopeOf c)
  | .advanceUpdateState s _ _ => some (s, .account)
  | _                         => none

/-- The pts a scope has of its own: a channel has none before its first reservation. -/
def ownPts (t : UpdateTables J) (s : String) : UpdateScope → Option Int
  | .account   => some (t.accountPts s)
  | .channel c => (t.channelUpdateState s c).map ChannelUpdateStateRow.pts

theorem target_of_taken (h : t.taken op = some (s, scope, n)) : target op = some (s, scope) := by
  cases op with
  | prepare k s' m date c now retained =>
    simp only [taken] at h
    split at h
    · cases h
    · cases h; rfl
  | advancePts s' m date c =>
    simp only [taken] at h
    split at h
    · cases h
    · cases h; rfl
  | advanceUpdateState s' m date => cases h; rfl
  | setPayload k p => cases h
  | markPublished k => cases h
  | discard k a now => cases h
  | prune retained => cases h

theorem ownPts_apply_of_ne_target
    (h : target op ≠ some (s, scope)) : (t.apply op).1.ownPts s scope = t.ownPts s scope := by
  have htaken : ∀ n, t.taken op ≠ some (s, scope, n) := fun n hn => h (target_of_taken hn)
  cases scope with
  | account =>
    have hzero : t.takenFrom op s .account = 0 := by
      unfold takenFrom
      split
      · rename_i s' scope' n heq
        split
        · rename_i hs
          rw [hs.1, hs.2] at heq
          exact absurd heq (htaken n)
        · rfl
      · rfl
    simp [ownPts, accountPts_apply, hzero]
  | channel c =>
    rcases channelUpdateState_apply (t := t) op s c with hk | ⟨row, hs⟩
    · simp only [ownPts, hk.kept]
    · obtain ⟨n, hn, -⟩ := hs.taken
      exact absurd hn (htaken n)

/-! ## The runs -/

def ofCounters (updateState : String → Option UpdateStateRow)
    (channelUpdateState : String → Nat → Option ChannelUpdateStateRow) (nextMessageId : Nat) : UpdateTables J :=
  ⟨updateState, channelUpdateState, UpdateLog.empty nextMessageId⟩

theorem disciplined_ofCounters (u : String → Option UpdateStateRow)
    (ch : String → Nat → Option ChannelUpdateStateRow) (n : Nat) : Disciplined (ofCounters (J := J) u ch n) :=
  ⟨fun _ he => absurd he not_mem_nil, List.Pairwise.nil⟩

end UpdateTables

end Crossgram
