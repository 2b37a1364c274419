import Crossgram.UpdateStore
import Crossgram.Lib.Runs
import Mathlib.Logic.Function.Basic
/-!
# UpdateTables — pts, seq and date counters (packages/bridge/src/message-store.ts)

The counter tables `mtproto_update_state` and `mtproto_channel_update_state` with the delivery log, and the writes of
`MessageStore` on them.  `_write` runs one write at a time, so a run is a list of writes; `prepareUpdateDelivery` is
split at its two steps (`reserveDelivery`, then `UpdateLog.create`) for the interleavings of `UpdateSystem`.

The pts of a scope is its `counter`: what `getUpdateState` and `getChannelUpdateState` answer, a channel without a row
of its own borrowing the account's.  Every reservation takes the interval between the counter before and after it.
-/
namespace Crossgram

/-- A row of `mtproto_update_state`. -/
structure UpdateStateRow where
  pts : Int
  qts : Nat
  seq : Nat
  date : Int

/-- A row of `mtproto_channel_update_state`, keyed by session and channel (`channelStateId`). -/
structure ChannelUpdateStateRow where
  pts : Int
  date : Int

structure UpdateTables (J : Type) where
  updateState : String → Option UpdateStateRow
  channelUpdateState : String → Nat → Option ChannelUpdateStateRow
  deliveries : UpdateLog J

/-- `Number.MAX_SAFE_INTEGER`. -/
def maxSafeInteger : Nat := 9007199254740991

def scopeOf : Option Nat → UpdateScope
  | none           => .account
  | some channelId => .channel channelId

def CLAIMED_DELIVERY_GRACE_SECONDS : Int := 30

inductive UpdateReply (J : Type)
  | delivery (row : UpdateDelivery J)
  | state (row : UpdateStateRow)
  | channelState (row : ChannelUpdateStateRow)
  | removed (done : Bool)
  | rangeError
  | done

/-- One write of `MessageStore`; `retained` is what the backend's retention keeps at that write. -/
inductive UpdateOp (J : Type)
  | prepare (eventKey platformSessionId : String) (ptsCount : Nat) (date : Int) (channelId : Option Nat) (now : Int)
      (retained : UpdateDelivery J → Bool)
  | advancePts (platformSessionId : String) (ptsCount : Nat) (date : Int) (channelId : Option Nat)
  | advanceUpdateState (platformSessionId : String) (ptsCount : Nat) (date : Int)
  | setPayload (eventKey : String) (payload : J)
  | markPublished (eventKey : String)
  | discard (eventKey : String) (onlyIfAbandoned : Bool) (now : Int)
  | prune (retained : UpdateDelivery J → Bool)

namespace UpdateTables

variable {J : Type} (t : UpdateTables J)

def setUpdateState (platformSessionId : String) (row : UpdateStateRow) : UpdateTables J :=
  { t with updateState := Function.update t.updateState platformSessionId (some row) }

def setChannelUpdateState (platformSessionId : String) (channelId : Nat) (row : ChannelUpdateStateRow) :
    UpdateTables J :=
  let ofSession := Function.update (t.channelUpdateState platformSessionId) channelId (some row)
  { t with channelUpdateState := Function.update t.channelUpdateState platformSessionId ofSession }

/-- Without a row the state is the initial one, dated by the clock. -/
def getUpdateState (platformSessionId : String) (now : Int) : UpdateStateRow :=
  (t.updateState platformSessionId).getD { pts := 1, qts := 0, seq := 0, date := now }

def getChannelUpdateState (platformSessionId : String) (channelId : Nat) (now : Int) : ChannelUpdateStateRow :=
  (t.channelUpdateState platformSessionId channelId).getD
    { pts := (t.getUpdateState platformSessionId now).pts, date := (t.getUpdateState platformSessionId now).date }

/-- `current?.pts ?? 1`. -/
def accountPts (platformSessionId : String) : Int := ((t.updateState platformSessionId).map UpdateStateRow.pts).getD 1

def accountDate (platformSessionId : String) : Int :=
  ((t.updateState platformSessionId).map UpdateStateRow.date).getD 0

def accountSeq (platformSessionId : String) : Nat :=
  ((t.updateState platformSessionId).map UpdateStateRow.seq).getD 0

def accountQts (platformSessionId : String) : Nat :=
  ((t.updateState platformSessionId).map UpdateStateRow.qts).getD 0

/-- `currentChannel?.pts ?? current?.pts ?? 1`. -/
def channelPts (platformSessionId : String) (channelId : Nat) : Int :=
  ((t.channelUpdateState platformSessionId channelId).map ChannelUpdateStateRow.pts).getD
    (t.accountPts platformSessionId)

def channelDate (platformSessionId : String) (channelId : Nat) : Int :=
  ((t.channelUpdateState platformSessionId channelId).map ChannelUpdateStateRow.date).getD 0

/-- Reserve pts for an RPC answer: no delivery, no `seq`. -/
def advancePts (platformSessionId : String) (ptsCount : Nat) (date : Int) (channelId : Option Nat) :
    UpdateTables J × UpdateReply J :=
  if ptsCount = 0 ∨ maxSafeInteger < ptsCount then (t, .rangeError)
  else match channelId with
    | some channelId =>
      let row : ChannelUpdateStateRow := { pts := t.channelPts platformSessionId channelId + ptsCount, date := date }
      (t.setChannelUpdateState platformSessionId channelId row, .channelState row)
    | none =>
      let row : UpdateStateRow :=
        { pts := t.accountPts platformSessionId + ptsCount, qts := t.accountQts platformSessionId,
          seq := t.accountSeq platformSessionId, date := date }
      (t.setUpdateState platformSessionId row, .state row)

def advanceUpdateState (platformSessionId : String) (ptsCount : Nat) (date : Int) : UpdateTables J × UpdateReply J :=
  let row : UpdateStateRow :=
    { pts := t.accountPts platformSessionId + ptsCount, qts := t.accountQts platformSessionId,
      seq := t.accountSeq platformSessionId + 1, date := max (t.accountDate platformSessionId) date }
  (t.setUpdateState platformSessionId row, .state row)

/-- The transaction of `prepareUpdateDelivery`: the counters move, the delivery is not yet in the log. -/
def reserveDelivery (eventKey platformSessionId : String) (ptsCount : Nat) (date : Int) (channelId : Option Nat)
    (claimedAt : Int) : UpdateTables J × NewUpdateDelivery J :=
  let deliveryDate := max (t.accountDate platformSessionId) date
  let account : UpdateStateRow :=
    { pts := t.accountPts platformSessionId + (if channelId = none then (ptsCount : Int) else 0),
      qts := t.accountQts platformSessionId, seq := t.accountSeq platformSessionId + 1, date := deliveryDate }
  let reserved (pts : Int) : NewUpdateDelivery J :=
    { eventKey := eventKey, platformSessionId := platformSessionId, scope := scopeOf channelId, pts := pts,
      ptsCount := ptsCount, seq := account.seq, date := deliveryDate, published := false,
      claimedAt := some claimedAt, payload := none }
  match channelId with
  | none => (t.setUpdateState platformSessionId account, reserved account.pts)
  | some channelId =>
    let channel : ChannelUpdateStateRow :=
      { pts := t.channelPts platformSessionId channelId + ptsCount,
        date := max (t.channelDate platformSessionId channelId) deliveryDate }
    ((t.setUpdateState platformSessionId account).setChannelUpdateState platformSessionId channelId channel,
      reserved channel.pts)

/-- The first step of `prepareUpdateDelivery`: a key that has a row is claimed again and answers that row
(`Sum.inr`); a new key reserves (`Sum.inl`). -/
def beginPrepare (eventKey platformSessionId : String) (ptsCount : Nat) (date : Int) (channelId : Option Nat)
    (now : Int) : UpdateTables J × (NewUpdateDelivery J ⊕ UpdateDelivery J) :=
  match t.deliveries.get eventKey with
  | some existing =>
    ({ t with deliveries := t.deliveries.claim eventKey now }, .inr { existing with claimedAt := some now })
  | none =>
    let reserved := t.reserveDelivery eventKey platformSessionId ptsCount date channelId now
    (reserved.1, .inl reserved.2)

def finishPrepare (d : NewUpdateDelivery J) (retained : UpdateDelivery J → Bool) :
    UpdateTables J × UpdateDelivery J :=
  let created := t.deliveries.create d retained
  ({ t with deliveries := created.1 }, created.2)

def prepareUpdateDelivery (eventKey platformSessionId : String) (ptsCount : Nat) (date : Int) (channelId : Option Nat)
    (now : Int) (retained : UpdateDelivery J → Bool) : UpdateTables J × UpdateDelivery J :=
  match t.beginPrepare eventKey platformSessionId ptsCount date channelId now with
  | (t', .inr row) => (t', row)
  | (t', .inl d)   => t'.finishPrepare d retained

def setUpdatePayload (eventKey : String) (payload : J) : UpdateTables J :=
  { t with deliveries := t.deliveries.setPayload eventKey payload }

def markUpdatePublished (eventKey : String) : UpdateTables J :=
  { t with deliveries := t.deliveries.markPublished eventKey }

/-- Whether `_discardUpdateDelivery` removes the row under a key. -/
def discardable (eventKey : String) (onlyIfAbandoned : Bool) (now : Int) : Bool :=
  match t.deliveries.get eventKey with
  | none => false
  | some d =>
    match d.payload with
    | some _ => false
    | none   =>
      match onlyIfAbandoned, d.claimedAt with
      | true, some claimedAt => !decide (now - claimedAt < CLAIMED_DELIVERY_GRACE_SECONDS)
      | _, _                 => true

def _discardUpdateDelivery (eventKey : String) (onlyIfAbandoned : Bool) (now : Int) : UpdateTables J × Bool :=
  if t.discardable eventKey onlyIfAbandoned now then
    ({ t with deliveries := t.deliveries.remove eventKey }, true)
  else (t, false)

def getUpdateDeliveriesAfter (platformSessionId : String) (pts : Int) (limit : Nat) (channelId : Option Nat) :
    List (UpdateDelivery J) := t.deliveries.getAfter platformSessionId (scopeOf channelId) pts limit

def getChannelUpdateDeliveriesSince (platformSessionId : String) (date : Int) (limit : Nat) :
    List (UpdateDelivery J) :=
  (t.deliveries.getSince platformSessionId date limit).filter (fun d => d.scope.isChannel)

/-- One write, as `_write` runs it. -/
def apply : UpdateOp J → UpdateTables J × UpdateReply J
  | .prepare k s n date c now retained =>
    let r := t.prepareUpdateDelivery k s n date c now retained
    (r.1, .delivery r.2)
  | .advancePts s n date c => t.advancePts s n date c
  | .advanceUpdateState s n date => t.advanceUpdateState s n date
  | .setPayload k p => (t.setUpdatePayload k p, .done)
  | .markPublished k => (t.markUpdatePublished k, .done)
  | .discard k a now => let r := t._discardUpdateDelivery k a now; (r.1, .removed r.2)
  | .prune retained => ({ t with deliveries := t.deliveries.prune retained }, .done)

/-! ## The counter of a scope -/

def counter (platformSessionId : String) : UpdateScope → Int
  | .account           => t.accountPts platformSessionId
  | .channel channelId => t.channelPts platformSessionId channelId

theorem getUpdateState_pts (s : String) (now : Int) : (t.getUpdateState s now).pts = t.counter s .account := by
  simp only [getUpdateState, counter, accountPts]
  cases t.updateState s <;> rfl

theorem getChannelUpdateState_pts (s : String) (c : Nat) (now : Int) :
    (t.getChannelUpdateState s c now).pts = t.counter s (.channel c) := by
  simp only [getChannelUpdateState, counter, channelPts]
  cases t.channelUpdateState s c with
  | none => exact t.getUpdateState_pts s now
  | some row => rfl

section Frames

variable {t}

@[simp] theorem setUpdateState_self (s : String) (row : UpdateStateRow) :
    (t.setUpdateState s row).updateState s = some row := by simp [setUpdateState]

theorem setUpdateState_of_ne {s s' : String} (h : s' ≠ s) (row : UpdateStateRow) :
    (t.setUpdateState s row).updateState s' = t.updateState s' := by simp [setUpdateState, h]

@[simp] theorem setUpdateState_channelUpdateState (s : String) (row : UpdateStateRow) :
    (t.setUpdateState s row).channelUpdateState = t.channelUpdateState := rfl

@[simp] theorem setUpdateState_deliveries (s : String) (row : UpdateStateRow) :
    (t.setUpdateState s row).deliveries = t.deliveries := rfl

@[simp] theorem setChannelUpdateState_self (s : String) (c : Nat) (row : ChannelUpdateStateRow) :
    (t.setChannelUpdateState s c row).channelUpdateState s c = some row := by simp [setChannelUpdateState]

theorem setChannelUpdateState_of_ne {s s' : String} {c c' : Nat} (h : s' = s → c' ≠ c) (row : ChannelUpdateStateRow) :
    (t.setChannelUpdateState s c row).channelUpdateState s' c' = t.channelUpdateState s' c' := by
  unfold setChannelUpdateState
  by_cases hs : s' = s
  · subst hs; simp [h rfl]
  · simp [hs]

@[simp] theorem setChannelUpdateState_updateState (s : String) (c : Nat) (row : ChannelUpdateStateRow) :
    (t.setChannelUpdateState s c row).updateState = t.updateState := rfl

@[simp] theorem setChannelUpdateState_deliveries (s : String) (c : Nat) (row : ChannelUpdateStateRow) :
    (t.setChannelUpdateState s c row).deliveries = t.deliveries := rfl

end Frames

end UpdateTables

end Crossgram
