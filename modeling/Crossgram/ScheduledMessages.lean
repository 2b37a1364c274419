import Mathlib.Data.List.Sort
import Crossgram.Lib.Maps
import Crossgram.Lib.Runs
/-!
# ScheduledMessages — the dispatcher of scheduled messages (packages/bridge/src/scheduled-messages.ts)

A sweep takes the rows that were due when it began, one after the other: it claims the row, sends the message and marks
it sent.  Sweeps overlap, and each works on its own snapshot; a claim reads the row and writes its lease in two steps
under one lock.  A lease runs from the time its sweep began, however long the sends before it took.
-/
namespace Crossgram

open List

def scheduledMessageLeaseMs : Int := 60000
def scheduledMessageRetryMs : List Int := [30000, 120000, 600000, 3600000, 21600000, 86400000]
def scheduledMessageBatch : Nat := 50

/-- `Math.ceil(ms / 1000)`. -/
def ceilSeconds (ms : Int) : Int := -(-ms / 1000)

inductive ScheduledMessageStatus
  | pending
  | sending
  | sent
  | failed
  | cancelled
deriving DecidableEq

/-- A row of `mtproto_scheduled_state`, under its `messageId`. -/
structure ScheduledMessageState where
  status : ScheduledMessageStatus
  attempts : Nat
  nextAttemptAt : Int
  leaseOwner : Option String
  leaseUntil : Option Int
  sentTlMessageId : Option Int
  lastError : Option String
deriving DecidableEq

structure ScheduledMessage where
  id : Int
  attempts : Nat
  nextAttemptAt : Int

/-- Where a sweep stands; `now` is the second it began at, `due` the rows it has not come to. -/
inductive Sweep
  | begun (now : Int)
  | dispatching (now : Int) (due : List ScheduledMessage)
  | claiming (now : Int) (message : ScheduledMessage) (due : List ScheduledMessage)
  | selected (now : Int) (message : ScheduledMessage) (matched : Bool) (due : List ScheduledMessage)
  | claimed (now : Int) (message : ScheduledMessage) (due : List ScheduledMessage)
  | sending (now : Int) (message : ScheduledMessage) (due : List ScheduledMessage)
  | sent (now : Int) (message : ScheduledMessage) (sentTlMessageId : Option Int) (due : List ScheduledMessage)
  | threw (now : Int) (message : ScheduledMessage) (error : String) (due : List ScheduledMessage)
  | finished

namespace Sweep

def isSelected : Sweep → Bool
  | .selected _ _ _ _ => true
  | _ => false

def selectedId : Sweep → Option Int
  | .selected _ message true _ => some message.id
  | _ => none

def claimedId : Sweep → Option Int
  | .claimed _ message _ => some message.id
  | _ => none

/-- The message whose `_send` it has called. -/
def sendingId : Sweep → Option Int
  | .sending _ message _ => some message.id
  | .sent _ message _ _ => some message.id
  | .threw _ message _ _ => some message.id
  | _ => none

end Sweep

/-- The rows, the sweeps under way, and a log of the calls of `_send`. -/
structure Dispatcher where
  owner : String
  leaseMs : Int
  states : List (Int × ScheduledMessageState)
  sweeps : List Sweep
  stopped : Bool
  sends : List Int

/-- `sweep` comes from the timer, the fallback interval or a rescan, at `now` milliseconds; `advance` answers what a sweep
awaits of the database, `sendReturns` and `sendThrows` its `_send`. -/
inductive DispatcherEvent
  | sweep (now : Int)
  | stop
  | advance (sweep : Nat)
  | sendReturns (sweep : Nat) (sentTlMessageId : Option Int)
  | sendThrows (sweep : Nat) (error : String)

namespace Dispatcher

variable (s : Dispatcher)

/-! ## ScheduledMessageStore -/

def due (now : Int) : List ScheduledMessage :=
  let rows := s.states.filter (fun e => e.2.status = .pending ∧ e.2.nextAttemptAt ≤ now)
  let messages := rows.map (fun e => { id := e.1, attempts := e.2.attempts, nextAttemptAt := e.2.nextAttemptAt })
  (messages.insertionSort (fun left right => left.nextAttemptAt ≤ right.nextAttemptAt)).take scheduledMessageBatch

def expired (state : ScheduledMessageState) (now : Int) : Bool :=
  state.status = .sending ∧ state.leaseUntil.any (fun leaseUntil => leaseUntil < now)

/-- The condition of `_claimUnlocked`. -/
def claimable (id now : Int) : Bool :=
  (Maps.get s.states id).any (fun state =>
    decide (state.status = .pending ∧ state.nextAttemptAt ≤ now) || expired state now)

def setState (id : Int) (update : ScheduledMessageState → ScheduledMessageState) : Dispatcher :=
  match Maps.get s.states id with
  | none       => s
  | some state => { s with states := Maps.set s.states id (update state) }

def claimLease (now : Int) (state : ScheduledMessageState) : ScheduledMessageState :=
  { state with status := .sending, leaseOwner := some s.owner, leaseUntil := some (now + ceilSeconds s.leaseMs) }

def markSent (sentTlMessageId : Option Int) (state : ScheduledMessageState) : ScheduledMessageState :=
  { state with
    status := .sent
    sentTlMessageId := sentTlMessageId
    leaseOwner := none
    leaseUntil := none
    lastError := none }

/-- `reschedule` with what `_dispatch` gives it: after the seventh failure the row is parked. -/
def reschedule (now : Int) (message : ScheduledMessage) (error : String) (state : ScheduledMessageState) :
    ScheduledMessageState :=
  let attempts := message.attempts + 1
  let retry := scheduledMessageRetryMs.getD (min (attempts - 1) (scheduledMessageRetryMs.length - 1)) 0
  let parked := scheduledMessageRetryMs.length < attempts
  { state with
    status := if parked then .failed else .pending
    attempts := attempts
    nextAttemptAt := if parked then now else now + ceilSeconds retry
    leaseOwner := none
    leaseUntil := none
    lastError := some error }

/-! ## Sweeps -/

def setSweep (i : Nat) (sweep : Sweep) : Dispatcher := { s with sweeps := s.sweeps.set i sweep }

/-- The next step of a sweep; `none` where it waits for the lock or for `_send`, or has ended. -/
def advance (i : Nat) : Sweep → Option Dispatcher
  | .begun now => some (s.setSweep i (.dispatching now (s.due now)))
  | .dispatching _ [] => some (s.setSweep i .finished)
  | .dispatching now (message :: due) =>
    some (s.setSweep i (if s.stopped then .finished else .claiming now message due))
  | .claiming now message due =>
    -- `serializeClaim`: one claim at a time
    if s.sweeps.any Sweep.isSelected then none
    else some (s.setSweep i (.selected now message (s.claimable message.id now) due))
  | .selected now message true due =>
    some ((s.setState message.id (s.claimLease now)).setSweep i (.claimed now message due))
  | .selected now _ false due => some (s.setSweep i (.dispatching now due))
  | .claimed now message due =>
    some ({ s with sends := s.sends ++ [message.id] }.setSweep i (.sending now message due))
  | .sending _ _ _ => none
  | .sent now message sentTlMessageId due =>
    some ((s.setState message.id (markSent sentTlMessageId)).setSweep i (.dispatching now due))
  | .threw now message error due =>
    some ((s.setState message.id (reschedule now message error)).setSweep i (.dispatching now due))
  | .finished => none

def step (s : Dispatcher) : DispatcherEvent → Option Dispatcher
  | .sweep now => some (if s.stopped then s else { s with sweeps := s.sweeps ++ [.begun (now / 1000)] })
  | .stop => some { s with stopped := true }
  | .advance i => (s.sweeps[i]?).bind (fun sweep => s.advance i sweep)
  | .sendReturns i sentTlMessageId => match s.sweeps[i]? with
    | some (.sending now message due) => some (s.setSweep i (.sent now message sentTlMessageId due))
    | _ => none
  | .sendThrows i error => match s.sweeps[i]? with
    | some (.sending now message due) => some (s.setSweep i (.threw now message error due))
    | _ => none

/-- Every `_send` returns, and no claim finds its row being sent under a lease that was over when the sweep began. -/
def Steady (s : Dispatcher) : DispatcherEvent → Prop
  | .sendThrows _ _ => False
  | .advance i => ∀ now message due, s.sweeps[i]? = some (.claiming now message due) →
    ∀ state, Maps.get s.states message.id = some state → expired state now = false
  | _ => True

@[simp] theorem sweeps_setState (id : Int) (update : ScheduledMessageState → ScheduledMessageState) :
    (s.setState id update).sweeps = s.sweeps := by
  unfold setState
  split <;> rfl

@[simp] theorem sends_setState (id : Int) (update : ScheduledMessageState → ScheduledMessageState) :
    (s.setState id update).sends = s.sends := by
  unfold setState
  split <;> rfl

theorem get_setState (id id' : Int) (update : ScheduledMessageState → ScheduledMessageState) :
    Maps.get (s.setState id update).states id' =
      if id' = id then (Maps.get s.states id).map update else Maps.get s.states id' := by
  unfold setState
  split
  · rename_i hnone
    by_cases hid : id' = id
    · rw [if_pos hid, hid, hnone]
      rfl
    · rw [if_neg hid]
  · rename_i state hsome
    rw [Maps.get_set, hsome]
    rfl

/-! ## At most once -/

variable {s} {id : Int} {i : Nat} {t t' : Sweep}

/-- The calls of `_send` for a message, with those its leases still owe. -/
def owed (s : Dispatcher) (id : Int) : Nat := s.sends.count id + s.sweeps.countP (fun t => t.claimedId = some id)

/-- **Each message is owed to one lease at most, and a pending one to none.** -/
structure Once (s : Dispatcher) : Prop where
  owed : ∀ id, s.owed id ≤ 1
  pending : ∀ id state, Maps.get s.states id = some state → state.status = .pending → s.owed id = 0
  lock : s.sweeps.countP Sweep.isSelected ≤ 1
  selected : ∀ t ∈ s.sweeps, ∀ id, t.selectedId = some id →
    ∃ state, Maps.get s.states id = some state ∧ state.status = .pending
  sending : ∀ t ∈ s.sweeps, ∀ id, t.sendingId = some id → id ∈ s.sends

theorem countP_setSweep {p : Sweep → Bool} (ht : s.sweeps[i]? = some t) :
    (s.setSweep i t').sweeps.countP p + (if p t then 1 else 0) = s.sweeps.countP p + (if p t' then 1 else 0) := by
  obtain ⟨hi, hget⟩ := List.getElem?_eq_some_iff.1 ht
  show (s.sweeps.set i t').countP p + _ = _
  rw [List.countP_set hi, hget]
  have hle : (if p t then 1 else 0) ≤ s.sweeps.countP p := by
    split
    · rename_i hp
      exact countP_pos_iff.2 ⟨t, mem_of_getElem? ht, hp⟩
    · exact Nat.zero_le _
  omega

theorem owed_setSweep (ht : s.sweeps[i]? = some t) (t' : Sweep) (id : Int) :
    (s.setSweep i t').owed id + (if t.claimedId = some id then 1 else 0) =
      s.owed id + (if t'.claimedId = some id then 1 else 0) := by
  have hcount : (s.setSweep i t').sweeps.countP (fun t => t.claimedId = some id) + _ = _ + _ := countP_setSweep ht
  simp only [decide_eq_true_eq] at hcount
  have hsends : (s.setSweep i t').sends = s.sends := rfl
  unfold owed
  rw [hsends]
  omega

theorem locked_setSweep (ht : s.sweeps[i]? = some t) (t' : Sweep) :
    (s.setSweep i t').sweeps.countP Sweep.isSelected + (if t.isSelected then 1 else 0) =
      s.sweeps.countP Sweep.isSelected + (if t'.isSelected then 1 else 0) := countP_setSweep ht

theorem mem_setSweep {u : Sweep} (h : u ∈ (s.setSweep i t').sweeps) : u ∈ s.sweeps ∨ u = t' :=
  mem_or_eq_of_mem_set h

theorem Once.setSweep (h : Once s) (ht : s.sweeps[i]? = some t) (hclaimed : t.claimedId = none)
    (hclaimed' : t'.claimedId = none) (hselected : t'.isSelected = false)
    (hsending : ∀ id, t'.sendingId = some id → id ∈ s.sends) : Once (s.setSweep i t') := by
  have howed : ∀ id, (s.setSweep i t').owed id = s.owed id := fun id => by
    have := owed_setSweep ht t' id
    rwa [hclaimed, hclaimed', if_neg nofun] at this
  have hnone : t'.selectedId = none := by
    cases t' <;> first | rfl | cases hselected
  refine ⟨fun id => howed id ▸ h.owed id, fun id state hg hp => howed id ▸ h.pending id state hg hp, ?_, ?_, ?_⟩
  · have := locked_setSweep ht t'
    rw [hselected, if_neg Bool.false_ne_true] at this
    have := h.lock
    omega
  · intro u hu id hid
    rcases mem_setSweep hu with hu | rfl
    · exact h.selected u hu id hid
    · rw [hnone] at hid
      cases hid
  · intro u hu id hid
    rcases mem_setSweep hu with hu | rfl
    · exact h.sending u hu id hid
    · exact hsending id hid

theorem owed_setState (id id' : Int) (update : ScheduledMessageState → ScheduledMessageState) :
    (s.setState id update).owed id' = s.owed id' := by
  unfold owed
  rw [sends_setState, sweeps_setState]

theorem Once.setState (h : Once s) {update : ScheduledMessageState → ScheduledMessageState}
    (hupdate : ∀ state, (update state).status ≠ .pending) (hfree : ∀ t ∈ s.sweeps, t.selectedId ≠ some id) :
    Once (s.setState id update) := by
  refine ⟨fun id' => (owed_setState id id' update).symm ▸ h.owed id', fun id' state hg hp => ?_, ?_, fun t ht id' hid' => ?_, ?_⟩
  · rw [owed_setState]
    rw [get_setState] at hg
    split at hg
    · obtain ⟨old, -, rfl⟩ := Option.map_eq_some_iff.1 hg
      exact absurd hp (hupdate old)
    · exact h.pending id' state hg hp
  · rw [sweeps_setState]
    exact h.lock
  · rw [sweeps_setState] at ht
    have hne : id' ≠ id := fun hc => hfree t ht (hc ▸ hid')
    rw [get_setState, if_neg hne]
    exact h.selected t ht id' hid'
  · rw [sweeps_setState, sends_setState]
    exact h.sending

variable {now : Int} {due : List ScheduledMessage} {message : ScheduledMessage}

theorem Once.select (h : Once s)
    (ht : s.sweeps[i]? = some (.claiming now message due)) (hlock : s.sweeps.any Sweep.isSelected = false)
    (hlive : ∀ state, Maps.get s.states message.id = some state → expired state now = false) :
    Once (s.setSweep i (.selected now message (s.claimable message.id now) due)) := by
  have howed : ∀ id, (s.setSweep i (.selected now message (s.claimable message.id now) due)).owed id = s.owed id :=
    fun id => by
      have := owed_setSweep ht (.selected now message (s.claimable message.id now) due) id
      rwa [if_neg nofun, if_neg nofun] at this
  have hunlocked : s.sweeps.countP Sweep.isSelected = 0 :=
    countP_eq_zero.2 (fun t ht hc => by simp [any_eq_false] at hlock; simp [hlock t ht] at hc)
  refine ⟨fun id => howed id ▸ h.owed id, fun id state hg hp => howed id ▸ h.pending id state hg hp, ?_, ?_, ?_⟩
  · have := locked_setSweep ht (.selected now message (s.claimable message.id now) due)
    simp only [Sweep.isSelected, if_true, Bool.false_eq_true, if_false] at this
    omega
  · intro u hu id hid
    rcases mem_setSweep hu with hu | rfl
    · exact h.selected u hu id hid
    · cases hclaimable : s.claimable message.id now with
      | false =>
        rw [hclaimable] at hid
        cases hid
      | true =>
        rw [hclaimable] at hid
        have hid : message.id = id := Option.some.inj hid
        subst hid
        unfold claimable at hclaimable
        obtain ⟨state, hstate, hmatch⟩ := (Option.any_eq_true _ _).1 hclaimable
        rw [hlive state hstate, Bool.or_false, decide_eq_true_eq] at hmatch
        exact ⟨state, hstate, hmatch.1⟩
  · intro u hu id hid
    rcases mem_setSweep hu with hu | rfl
    · exact h.sending u hu id hid
    · cases hid

theorem Once.lease (h : Once s) (ht : s.sweeps[i]? = some (.selected now message true due)) :
    Once ((s.setState message.id (s.claimLease now)).setSweep i (.claimed now message due)) := by
  obtain ⟨state, hstate, hpending⟩ := h.selected _ (mem_of_getElem? ht) message.id rfl
  have hnone := h.pending message.id state hstate hpending
  have ht' : (s.setState message.id (s.claimLease now)).sweeps[i]? = some (.selected now message true due) := by
    rw [sweeps_setState]
    exact ht
  have howed : ∀ id, ((s.setState message.id (s.claimLease now)).setSweep i (.claimed now message due)).owed id =
      s.owed id + if message.id = id then 1 else 0 := fun id => by
    have := owed_setSweep ht' (.claimed now message due) id
    rw [if_neg nofun, owed_setState] at this
    rw [← Nat.add_zero (Dispatcher.owed _ id), this]
    show s.owed id + (if some message.id = some id then 1 else 0) = _
    simp only [Option.some.injEq]
  -- this sweep held the lock, so no other has a row selected
  have hunlocked : ((s.setState message.id (s.claimLease now)).setSweep i (.claimed now message due)).sweeps.countP
      Sweep.isSelected = 0 := by
    have := locked_setSweep ht' (.claimed now message due)
    rw [sweeps_setState] at this
    simp only [Sweep.isSelected, if_true, Bool.false_eq_true, if_false] at this
    have := h.lock
    omega
  refine ⟨fun id => ?_, fun id st hg hp => ?_, by omega, fun u hu id hid => ?_, fun u hu id hid => ?_⟩
  · rw [howed]
    by_cases hid : message.id = id
    · rw [if_pos hid, ← hid, hnone]
    · rw [if_neg hid]
      exact h.owed id
  · change Maps.get (s.setState message.id (s.claimLease now)).states id = some st at hg
    rw [get_setState] at hg
    by_cases hid : id = message.id
    · rw [if_pos hid, hstate] at hg
      rw [← Option.some.inj hg] at hp
      cases hp
    · rw [if_neg hid] at hg
      rw [howed, if_neg (Ne.symm hid)]
      exact h.pending id st hg hp
  · have hselected : u.isSelected = false := by
      rw [← Bool.not_eq_true]
      exact countP_eq_zero.1 hunlocked u hu
    cases u <;> first | cases hid | cases hselected
  · show id ∈ (s.setState message.id (s.claimLease now)).sends
    rw [sends_setState]
    rcases mem_setSweep hu with hu | rfl
    · rw [sweeps_setState] at hu
      exact h.sending u hu id hid
    · cases hid

theorem Once.send (h : Once s) (ht : s.sweeps[i]? = some (.claimed now message due)) :
    Once ({ s with sends := s.sends ++ [message.id] }.setSweep i (.sending now message due)) := by
  have howed : ∀ id, ({ s with sends := s.sends ++ [message.id] }.setSweep i (.sending now message due)).owed id =
      s.owed id := fun id => by
    have := owed_setSweep ht (.sending now message due) id
    have hsends : (s.setSweep i (.sending now message due)).sends = s.sends := rfl
    unfold Dispatcher.owed at this ⊢
    rw [hsends, if_neg (fun (hc : (Sweep.sending now message due).claimedId = some id) => nomatch hc)] at this
    show (s.sends ++ [message.id]).count id + (s.setSweep i (.sending now message due)).sweeps.countP _ = _
    rw [count_append, count_singleton]
    simp only [beq_iff_eq]
    change _ + (if some message.id = some id then 1 else 0) = _ at this
    simp only [Option.some.injEq] at this
    omega
  refine ⟨fun id => howed id ▸ h.owed id, fun id st hg hp => howed id ▸ h.pending id st hg hp, ?_, ?_, ?_⟩
  · have := locked_setSweep ht (.sending now message due)
    simp only [Sweep.isSelected, Bool.false_eq_true, if_false] at this
    have := h.lock
    show (s.setSweep i (.sending now message due)).sweeps.countP Sweep.isSelected ≤ 1
    omega
  · intro u hu id hid
    rcases mem_setSweep hu with hu | rfl
    · exact h.selected u hu id hid
    · cases hid
  · intro u hu id hid
    show id ∈ s.sends ++ [message.id]
    rcases mem_setSweep hu with hu | rfl
    · exact mem_append_left _ (h.sending u hu id hid)
    · exact mem_append_right _ (mem_singleton.2 (Option.some.inj hid).symm)

theorem Once.free_of_sent (h : Once s) (hid : id ∈ s.sends) : ∀ t ∈ s.sweeps, t.selectedId ≠ some id := fun t ht hc => by
  obtain ⟨state, hstate, hpending⟩ := h.selected t ht id hc
  have hnone := h.pending id state hstate hpending
  have hcount := count_pos_iff.2 hid
  unfold Dispatcher.owed at hnone
  omega

def NoneThrew (s : Dispatcher) : Prop := ∀ t ∈ s.sweeps, ∀ now message error due, t ≠ .threw now message error due

theorem once_advance {s' : Dispatcher} (h : Once s) (hthrew : NoneThrew s) (hok : Steady s (.advance i))
    (ht : s.sweeps[i]? = some t) (hs : s.advance i t = some s') : Once s' ∧ NoneThrew s' := by
  have hmem := mem_of_getElem? ht
  have hset : ∀ {s₁ : Dispatcher} {t' : Sweep}, s₁.sweeps = s.sweeps →
      (∀ now message error due, t' ≠ .threw now message error due) → NoneThrew (s₁.setSweep i t') :=
    fun hsweeps ht' u hu now message error due => by
      rcases mem_setSweep hu with hu | rfl
      · exact hthrew u (hsweeps ▸ hu) now message error due
      · exact ht' now message error due
  cases t with
  | begun now =>
    cases hs
    exact ⟨h.setSweep ht rfl rfl rfl nofun, hset rfl nofun⟩
  | dispatching now due =>
    cases due with
    | nil =>
      cases hs
      exact ⟨h.setSweep ht rfl rfl rfl nofun, hset rfl nofun⟩
    | cons message due =>
      cases hs
      cases s.stopped with
      | true => exact ⟨h.setSweep ht rfl rfl rfl nofun, hset rfl nofun⟩
      | false => exact ⟨h.setSweep ht rfl rfl rfl nofun, hset rfl nofun⟩
  | claiming now message due =>
    rw [advance] at hs
    split at hs
    · cases hs
    · rename_i hlock
      cases hs
      exact ⟨h.select ht (by rwa [Bool.not_eq_true] at hlock) (hok now message due ht), hset rfl nofun⟩
  | selected now message matched due =>
    cases matched with
    | true =>
      cases hs
      exact ⟨h.lease ht, hset (sweeps_setState s _ _) nofun⟩
    | false =>
      cases hs
      exact ⟨h.setSweep ht rfl rfl rfl nofun, hset rfl nofun⟩
  | claimed now message due =>
    cases hs
    exact ⟨h.send ht, hset rfl nofun⟩
  | sending now message due => cases hs
  | sent now message sentTlMessageId due =>
    cases hs
    have hfree := h.free_of_sent (h.sending _ hmem message.id rfl)
    have ht' : (s.setState message.id (markSent sentTlMessageId)).sweeps[i]? = some (.sent now message sentTlMessageId due) := by
      rw [sweeps_setState]
      exact ht
    refine ⟨(h.setState (fun _ hc => by cases hc) hfree).setSweep ht' rfl rfl rfl nofun, hset (sweeps_setState s _ _) nofun⟩
  | threw now message error due => exact absurd rfl (hthrew _ hmem now message error due)
  | finished => cases hs

theorem mem_begin {u : Sweep} (h : u ∈ s.sweeps ++ [.begun now]) : u ∈ s.sweeps ∨ u = .begun now :=
  (mem_append.1 h).imp_right mem_singleton.1

theorem Once.begin (h : Once s) : Once { s with sweeps := s.sweeps ++ [.begun now] } := by
  have hcount : ∀ p : Sweep → Bool, p (.begun now) = false →
      (s.sweeps ++ [Sweep.begun now]).countP p = s.sweeps.countP p := fun p hp => by
    rw [countP_append, countP_singleton, hp]
    rfl
  have howed : ∀ id, Dispatcher.owed { s with sweeps := s.sweeps ++ [.begun now] } id = s.owed id := fun id => by
    unfold Dispatcher.owed
    rw [hcount (fun t => t.claimedId = some id) rfl]
  refine ⟨fun id => (howed id).symm ▸ h.owed id, fun id state hg hp => (howed id).symm ▸ h.pending id state hg hp,
    ?_, fun u hu id hid => ?_, fun u hu id hid => ?_⟩
  · rw [hcount Sweep.isSelected rfl]
    exact h.lock
  · rcases mem_begin hu with hu | rfl
    · exact h.selected u hu id hid
    · cases hid
  · rcases mem_begin hu with hu | rfl
    · exact h.sending u hu id hid
    · cases hid

theorem NoneThrew.begin (h : NoneThrew s) : NoneThrew { s with sweeps := s.sweeps ++ [.begun now] } :=
  fun u hu => by
    rcases mem_begin hu with hu | rfl
    · exact h u hu
    · exact nofun

theorem once_step {s' : Dispatcher} {event : DispatcherEvent} (h : Once s ∧ NoneThrew s) (hok : Steady s event)
    (hs : s.step event = some s') : Once s' ∧ NoneThrew s' := by
  obtain ⟨h, hthrew⟩ := h
  cases event with
  | sweep now =>
    cases hs
    split
    · exact ⟨h, hthrew⟩
    · exact ⟨h.begin, hthrew.begin⟩
  | stop =>
    cases hs
    exact ⟨⟨h.owed, h.pending, h.lock, h.selected, h.sending⟩, hthrew⟩
  | advance i =>
    obtain ⟨t, ht, hs⟩ := Option.bind_eq_some_iff.1 hs
    exact once_advance h hthrew hok ht hs
  | sendReturns i sentTlMessageId =>
    rw [step] at hs
    split at hs
    · rename_i now message due ht
      cases hs
      refine ⟨h.setSweep ht rfl rfl rfl (fun id hid => ?_), fun u hu => ?_⟩
      · exact h.sending _ (mem_of_getElem? ht) id hid
      · rcases mem_setSweep hu with hu | rfl
        · exact hthrew u hu
        · exact nofun
    · cases hs
  | sendThrows i error => exact hok.elim

def ofStates (owner : String) (leaseMs : Int) (states : List (Int × ScheduledMessageState)) : Dispatcher :=
  { owner := owner, leaseMs := leaseMs, states := states, sweeps := [], stopped := false, sends := [] }

theorem once_ofStates {owner : String} {leaseMs : Int} {states : List (Int × ScheduledMessageState)} :
    Once (ofStates owner leaseMs states) ∧ NoneThrew (ofStates owner leaseMs states) :=
  ⟨⟨fun _ => Nat.zero_le _, fun _ _ _ _ => rfl, Nat.zero_le _, fun _ ht => absurd ht not_mem_nil,
    fun _ ht => absurd ht not_mem_nil⟩, fun _ ht => absurd ht not_mem_nil⟩

/-- **A scheduled message is sent at most once**, whatever the rows, the clock and the order of the sweeps, as long as no
claim takes over a row that is being sent. -/
theorem sent_at_most_once {owner : String} {leaseMs : Int} {states : List (Int × ScheduledMessageState)}
    (h : Runs.Reachable step Steady (ofStates owner leaseMs states) s) (id : Int) : s.sends.count id ≤ 1 := by
  have hrun : Once s ∧ NoneThrew s :=
    Runs.Reachable.invariant (I := fun s => Once s ∧ NoneThrew s) once_ofStates
      (fun _ _ _ _ hI hok hs => once_step hI hok hs) h
  have := hrun.1.owed id
  unfold Dispatcher.owed at this
  omega

/-- `Steady`, tested. -/
def steadyNow (s : Dispatcher) : DispatcherEvent → Bool
  | .sendThrows _ _ => false
  | .advance i => match s.sweeps[i]? with
    | some (.claiming now message _) => (Maps.get s.states message.id).all (fun state => !expired state now)
    | _ => true
  | _ => true

theorem steady_of_now (s : Dispatcher) (event : DispatcherEvent) (h : steadyNow s event = true) : Steady s event := by
  cases event with
  | sendThrows i error => cases h
  | advance i =>
    intro now message due ht state hstate
    simpa [steadyNow, ht, hstate] using h
  | _ => trivial

def threeDue : Dispatcher :=
  ofStates "scheduler" scheduledMessageLeaseMs ([1, 2, 3].map (fun id => (id, ⟨.pending, 0, 10, none, none, none, none⟩)))

/-- A sweep comes to its next message and calls `_send`. -/
def takes (i : Nat) : List DispatcherEvent := List.replicate 4 (.advance i)

def overlapping : List DispatcherEvent :=
  [.sweep 100000, .advance 0] ++ takes 0 ++ [.sweep 165000, .advance 1] ++ takes 1 ++
    [.sendReturns 0 none, .advance 0, .advance 0, .advance 0, .advance 0]

theorem overlapping_sent_once : ∃ s, Runs.Reachable step Steady threeDue s ∧ s.sends = [1, 2] ∧ s.sends.count 2 ≤ 1 := by
  have hrun : (Runs.run (fun s a => if steadyNow s a then step s a else none) threeDue overlapping).map
      (fun s => s.sends) = some [1, 2] := by decide +kernel
  obtain ⟨s, hs, hsends⟩ := Option.map_eq_some_iff.1 hrun
  have hreach : Runs.Reachable step Steady threeDue s := Runs.reachable_of_tested_run steady_of_now .init hs
  exact ⟨s, hreach, hsends, sent_at_most_once hreach 2⟩

def takenOver : List DispatcherEvent :=
  overlapping ++ takes 0 ++ [.sendReturns 1 none, .advance 1] ++ takes 1 ++
    [.sendReturns 0 none, .advance 0, .sendReturns 1 none, .advance 1]

/-- **A message is sent twice** though every `_send` returned. -/
theorem taken_over_sent_twice :
    ∃ s, Runs.Reachable step (fun _ _ => True) threeDue s ∧ s.sends = [1, 2, 3, 3] ∧
      ∀ t ∈ s.sweeps, t.sendingId = none := by
  have hrun : (Runs.run step threeDue takenOver).map (fun s => (s.sends, s.sweeps.all (fun t => t.sendingId = none))) =
      some ([1, 2, 3, 3], true) := by decide +kernel
  obtain ⟨s, hs, hfacts⟩ := Option.map_eq_some_iff.1 hrun
  rw [Prod.mk.injEq, all_eq_true] at hfacts
  refine ⟨s, Runs.reachable_of_run (fun _ _ _ => trivial) .init hs, hfacts.1, fun t ht => ?_⟩
  exact of_decide_eq_true (hfacts.2 t ht)

end Dispatcher

end Crossgram
