import Crossgram.ScheduledMessages
/-!
# ScheduledStore — claims, cancels and completions of scheduled messages (packages/bridge/src/scheduled-messages.ts)

`claim`, `claimNow`, `cancel` and `requeueExpired` are conditional updates: they select the rows that match and write
those, whatever happened in between; only claims wait for each other.  The completion of a claim (`markSent`,
`reschedule`, `release`) is a write without a condition, however long after the claim it comes.  A cancelled and a sent
row stay what they are in the runs where nothing ended a row, and no other owner claimed it, between the reading and
the writing of whoever writes it.
-/
namespace Crossgram

open List

/-- What `cancel` reads of a row of `mtproto_scheduled_message`. -/
structure ScheduledMessageRow where
  id : Int
  platformSessionId : String
  platformConversationId : String
  tlMessageId : Int
deriving DecidableEq

inductive ScheduledEffect
  | claimed (id : Int) (owner : String)
  | cancelled (id : Int)
  | sent (id : Int)
deriving DecidableEq

/-- A call under way.  `readAt` is how many effects there were when it read its rows; the caller of a claim that went
through is `holding` the row until it completes it. -/
inductive ScheduledOperation
  | claiming (owner : String) (id now leaseMs : Int) (ignoreDue : Bool)
  | claimSelected (owner : String) (id now leaseMs : Int) (matched : Bool) (readAt : Nat)
  | holding (owner : String) (id : Int) (readAt : Nat)
  | cancelling (id : Int)
  | cancelSelected (id : Int) (matched : Bool) (readAt : Nat)
  | requeueing (now : Int)
  | requeueSelected (ids : List Int) (readAt : Nat)
  | finished
deriving DecidableEq

structure ScheduledWrite where
  id : Int
  status : ScheduledMessageStatus
  readAt : Nat
  owner : Option String
deriving DecidableEq

structure ScheduledMessageStore where
  messages : List ScheduledMessageRow
  states : List (Int × ScheduledMessageState)
  operations : List ScheduledOperation
  effects : List ScheduledEffect
deriving DecidableEq

/-- Calls of the store; `advance` is the next step of the call under way at that place, a completion is made by the
holder there, and at a `restart` whatever was under way is gone. -/
inductive ScheduledStoreEvent
  | create (platformSessionId platformConversationId : String) (tlMessageId dueAt : Int)
  | claim (id : Int) (owner : String) (now leaseMs : Int)
  | claimNow (id : Int) (owner : String) (now leaseMs : Int)
  | cancel (platformSessionId platformConversationId : String) (tlMessageId : Int)
  | requeueExpired (now : Int)
  | advance (operation : Nat)
  | markSent (operation : Nat) (sentTlMessageId : Option Int)
  | reschedule (operation : Nat) (attempts : Nat) (nextAttemptAt : Int) (parked : Bool) (error : Option String)
  | release (operation : Nat) (parked : Bool) (error : Option String)
  | restart

namespace ScheduledMessageStatus

def isTerminal : ScheduledMessageStatus → Bool
  | .cancelled => true
  | .sent => true
  | _ => false

def ofParked (parked : Bool) : ScheduledMessageStatus := if parked then .failed else .pending

end ScheduledMessageStatus

namespace ScheduledEffect

def ends (id : Int) : ScheduledEffect → Bool
  | .claimed _ _ => false
  | .cancelled id' => id' = id
  | .sent id' => id' = id

def takes (owner : String) (id : Int) : ScheduledEffect → Bool
  | .claimed id' owner' => id' = id ∧ owner' ≠ owner
  | _ => false

end ScheduledEffect

namespace ScheduledMessageStore

variable (s : ScheduledMessageStore)

def empty : ScheduledMessageStore := ⟨[], [], [], []⟩

def status (id : Int) : Option ScheduledMessageStatus := (Maps.get s.states id).map (fun state => state.status)

/-! ## The calls -/

/-- The condition of `_claimUnlocked`. -/
def claimable (now : Int) (ignoreDue : Bool) (state : ScheduledMessageState) : Bool :=
  (if ignoreDue then decide (state.status = .pending ∨ state.status = .failed)
    else decide (state.status = .pending ∧ state.nextAttemptAt ≤ now)) || Dispatcher.expired state now

def claimLease (owner : String) (now leaseMs : Int) (state : ScheduledMessageState) : ScheduledMessageState :=
  { state with status := .sending, leaseOwner := some owner, leaseUntil := some (now + ceilSeconds leaseMs) }

/-- The condition of `cancel`. -/
def cancellable (state : ScheduledMessageState) : Bool :=
  state.status = .pending ∨ state.status = .sending ∨ state.status = .failed

def cancelled (state : ScheduledMessageState) : ScheduledMessageState :=
  { state with status := .cancelled, leaseOwner := none, leaseUntil := none }

def requeued (state : ScheduledMessageState) : ScheduledMessageState :=
  { state with status := .pending, leaseOwner := none, leaseUntil := none }

def rescheduled (attempts : Nat) (nextAttemptAt : Int) (parked : Bool) (error : Option String)
    (state : ScheduledMessageState) : ScheduledMessageState :=
  { state with
    status := .ofParked parked
    attempts := attempts
    nextAttemptAt := nextAttemptAt
    leaseOwner := none
    leaseUntil := none
    lastError := error }

def released (parked : Bool) (error : Option String) (state : ScheduledMessageState) : ScheduledMessageState :=
  { state with status := .ofParked parked, leaseOwner := none, leaseUntil := none, lastError := error }

def nextId : Int := s.messages.length + 1

/-- `create`, in a transaction of its own. -/
def create (platformSessionId platformConversationId : String) (tlMessageId dueAt : Int) : ScheduledMessageStore :=
  { s with
    messages := s.messages ++ [⟨s.nextId, platformSessionId, platformConversationId, tlMessageId⟩]
    states := Maps.set s.states s.nextId
      { status := .pending
        attempts := 0
        nextAttemptAt := dueAt
        leaseOwner := none
        leaseUntil := none
        sentTlMessageId := none
        lastError := none } }

def matched (id : Int) (condition : ScheduledMessageState → Bool) : Bool := (Maps.get s.states id).any condition

def update (ids : List Int) (change : ScheduledMessageState → ScheduledMessageState) : ScheduledMessageStore :=
  { s with states := s.states.map (fun e => (e.1, if e.1 ∈ ids then change e.2 else e.2)) }

def log (effects : List ScheduledEffect) : ScheduledMessageStore := { s with effects := s.effects ++ effects }

def setOperation (i : Nat) (operation : ScheduledOperation) : ScheduledMessageStore :=
  { s with operations := s.operations.set i operation }

def begin (operation : ScheduledOperation) : ScheduledMessageStore :=
  { s with operations := s.operations ++ [operation] }

/-- `serializeClaim` has let a claim in. -/
def locked : Bool := s.operations.any (fun operation => match operation with
  | .claimSelected _ _ _ _ _ _ => true
  | _ => false)

/-- The next step of a call; `none` where it waits for the lock or for its caller, or has ended. -/
def advance (i : Nat) : ScheduledOperation → Option ScheduledMessageStore
  | .claiming owner id now leaseMs ignoreDue =>
    if s.locked then none
    else
      let matched := s.matched id (claimable now ignoreDue)
      some (s.setOperation i (.claimSelected owner id now leaseMs matched s.effects.length))
  | .claimSelected owner id now leaseMs true _ =>
    some (((s.update [id] (claimLease owner now leaseMs)).log [.claimed id owner]).setOperation i
      (.holding owner id (s.effects.length + 1)))
  | .claimSelected _ _ _ _ false _ => some (s.setOperation i .finished)
  | .holding _ _ _ => none
  | .cancelling id => some (s.setOperation i (.cancelSelected id (s.matched id cancellable) s.effects.length))
  | .cancelSelected id true _ => some (((s.update [id] cancelled).log [.cancelled id]).setOperation i .finished)
  | .cancelSelected _ false _ => some (s.setOperation i .finished)
  | .requeueing now =>
    let ids := (s.states.map Prod.fst).filter (fun id => s.matched id (fun state => Dispatcher.expired state now))
    some (s.setOperation i (.requeueSelected ids s.effects.length))
  | .requeueSelected ids _ => some ((s.update ids requeued).setOperation i .finished)
  | .finished => none

/-- The holder at `i` writes the row it claimed. -/
def complete (i : Nat) (change : ScheduledMessageState → ScheduledMessageState) (effects : Int → List ScheduledEffect) :
    Option ScheduledMessageStore :=
  match s.operations[i]? with
  | some (.holding _ id _) => some (((s.update [id] change).log (effects id)).setOperation i .finished)
  | _ => none

def step (s : ScheduledMessageStore) : ScheduledStoreEvent → Option ScheduledMessageStore
  | .create platformSessionId platformConversationId tlMessageId dueAt =>
    some (s.create platformSessionId platformConversationId tlMessageId dueAt)
  | .claim id owner now leaseMs => some (s.begin (.claiming owner id now leaseMs false))
  | .claimNow id owner now leaseMs => some (s.begin (.claiming owner id now leaseMs true))
  | .cancel platformSessionId platformConversationId tlMessageId =>
    match s.messages.find? (fun message => message.platformSessionId = platformSessionId ∧
        message.platformConversationId = platformConversationId ∧ message.tlMessageId = tlMessageId) with
    | none         => some s
    | some message => some (s.begin (.cancelling message.id))
  | .requeueExpired now => some (s.begin (.requeueing now))
  | .advance i => (s.operations[i]?).bind (fun operation => s.advance i operation)
  | .markSent i sentTlMessageId => s.complete i (Dispatcher.markSent sentTlMessageId) (fun id => [.sent id])
  | .reschedule i attempts nextAttemptAt parked error =>
    s.complete i (rescheduled attempts nextAttemptAt parked error) (fun _ => [])
  | .release i parked error => s.complete i (released parked error) (fun _ => [])
  | .restart => some { s with operations := [] }

/-! ## What a step writes -/

def selected : ScheduledOperation → List ScheduledWrite
  | .claimSelected _ id _ _ true readAt => [⟨id, .sending, readAt, none⟩]
  | .cancelSelected id true readAt => [⟨id, .cancelled, readAt, none⟩]
  | .requeueSelected ids readAt => ids.map (fun id => ⟨id, .pending, readAt, none⟩)
  | _ => []

def completed (status : ScheduledMessageStatus) : ScheduledOperation → List ScheduledWrite
  | .holding owner id readAt => [⟨id, status, readAt, some owner⟩]
  | _ => []

def writes : ScheduledStoreEvent → List ScheduledWrite
  | .advance i => (s.operations[i]?).elim [] selected
  | .markSent i _ => (s.operations[i]?).elim [] (completed .sent)
  | .reschedule i _ _ parked _ => (s.operations[i]?).elim [] (completed (.ofParked parked))
  | .release i parked _ => (s.operations[i]?).elim [] (completed (.ofParked parked))
  | _ => []

def endedSince (readAt : Nat) (id : Int) : Bool := (s.effects.drop readAt).any (fun e => e.ends id)

def takenOver (w : ScheduledWrite) : Bool :=
  w.owner.any (fun owner => (s.effects.drop w.readAt).any (fun e => e.takes owner w.id))

/-- Nothing ended a row that is written since the writer read it, and no other owner claimed it since the claim that the
write completes; or the row has the status already that it gets. -/
def Undisturbed (s : ScheduledMessageStore) (e : ScheduledStoreEvent) : Prop :=
  ∀ w ∈ s.writes e, s.status w.id = some w.status ∨ (s.endedSince w.readAt w.id = false ∧ s.takenOver w = false)

instance (e : ScheduledStoreEvent) : Decidable (Undisturbed s e) :=
  inferInstanceAs (Decidable (∀ w ∈ s.writes e, _ ∨ (_ ∧ _)))

/-- A step leaves a cancelled or sent row as it is, and the holder of a lease that was taken over changes nothing. -/
def KeepsEnded (s : ScheduledMessageStore) (e : ScheduledStoreEvent) (s' : ScheduledMessageStore) : Prop :=
  (∀ id status, s.status id = some status → status.isTerminal = true → s'.status id = some status) ∧
  ∀ w ∈ s.writes e, s.takenOver w = true → s'.status w.id = s.status w.id

/-! ## What one step does -/

variable {s} {s' : ScheduledMessageStore} {e : ScheduledStoreEvent} {id : Int} {i : Nat}

@[simp] theorem status_setOperation (i : Nat) (operation : ScheduledOperation) (id : Int) :
    (s.setOperation i operation).status id = s.status id := rfl

@[simp] theorem status_begin (operation : ScheduledOperation) (id : Int) :
    (s.begin operation).status id = s.status id := rfl

@[simp] theorem status_log (effects : List ScheduledEffect) (id : Int) : (s.log effects).status id = s.status id := rfl

variable {change : ScheduledMessageState → ScheduledMessageState} {status : ScheduledMessageStatus}

theorem status_update (hchange : ∀ state, (change state).status = status) (ids : List Int) (id : Int) :
    (s.update ids change).status id = if id ∈ ids then (s.status id).map (fun _ => status) else s.status id := by
  have hget : Maps.get (s.update ids change).states id =
      (Maps.get s.states id).map (fun state => if id ∈ ids then change state else state) :=
    Maps.get_map_values (fun id state => if id ∈ ids then change state else state) id s.states
  unfold ScheduledMessageStore.status
  rw [hget, Option.map_map]
  by_cases hid : id ∈ ids
  · rw [if_pos hid, Option.map_map]
    congr 1
    funext state
    simp [hid, hchange state]
  · rw [if_neg hid]
    congr 1
    funext state
    simp [hid]

def pending (operation : ScheduledOperation) : List ScheduledWrite := selected operation ++ completed .sent operation

/-- The call has just read the rows it selects, and none of them had ended. -/
def Fresh (s : ScheduledMessageStore) (operation : ScheduledOperation) : Prop :=
  ∀ w ∈ pending operation, w.readAt = s.effects.length ∧
    ∃ status, s.status w.id = some status ∧ status.isTerminal = false

structure Reads (s : ScheduledMessageStore) (e : ScheduledStoreEvent) (s' : ScheduledMessageStore) : Prop where
  writes : s.writes e = []
  status : ∀ id status, s.status id = some status → s'.status id = some status
  rows : (∀ id status, s.status id = some status → id ≤ s.messages.length) →
    ∀ id status, s'.status id = some status → id ≤ s'.messages.length
  effects : s'.effects = s.effects
  operations : ∀ operation ∈ s'.operations, operation ∈ s.operations ∨ Fresh s operation

structure Writes (s : ScheduledMessageStore) (e : ScheduledStoreEvent) (status : ScheduledMessageStatus)
    (s' : ScheduledMessageStore) : Prop where
  writes : ∀ w ∈ s.writes e, w.status = status ∧ ∃ operation ∈ s.operations, ∃ w' ∈ pending operation,
    w'.id = w.id ∧ w'.readAt = w.readAt
  rows : ∀ id, s'.status id =
    if id ∈ (s.writes e).map ScheduledWrite.id then (s.status id).map (fun _ => status) else s.status id
  messages : s'.messages = s.messages
  effects : ∃ new, s'.effects = s.effects ++ new ∧ ∀ id, (∃ x ∈ new, x.ends id = true) ↔
    id ∈ (s.writes e).map ScheduledWrite.id ∧ status.isTerminal = true
  operations : ∀ operation ∈ s'.operations, operation ∈ s.operations ∨ ∀ w ∈ pending operation,
    w.readAt = s'.effects.length ∧ w.id ∈ (s.writes e).map ScheduledWrite.id ∧ status.isTerminal = false

/-! ### Reading -/

theorem status_create (h : ∀ id status, s.status id = some status → id ≤ s.messages.length)
    (platformSessionId platformConversationId : String) (tlMessageId dueAt : Int) (hs : s.status id = some status) :
    (s.create platformSessionId platformConversationId tlMessageId dueAt).status id = some status := by
  have hne : id ≠ s.nextId := by
    have := h id status hs
    unfold nextId
    omega
  unfold ScheduledMessageStore.status create
  rw [Maps.get_set, if_neg hne]
  exact hs

theorem rows_create {platformSessionId platformConversationId : String} {tlMessageId dueAt : Int}
    (h : ∀ id status, s.status id = some status → id ≤ s.messages.length) (id : Int) (status : ScheduledMessageStatus)
    (hs : (s.create platformSessionId platformConversationId tlMessageId dueAt).status id = some status) :
    id ≤ (s.create platformSessionId platformConversationId tlMessageId dueAt).messages.length := by
  have hlength : (s.create platformSessionId platformConversationId tlMessageId dueAt).messages.length =
      s.messages.length + 1 := length_append
  have hid : id = s.nextId ∨ s.status id = some status := by
    by_cases hid : id = s.nextId
    · exact .inl hid
    · unfold ScheduledMessageStore.status create at hs
      rw [Maps.get_set, if_neg hid] at hs
      exact .inr hs
  rw [hlength]
  rcases hid with rfl | hold
  · unfold nextId
    omega
  · have := h id status hold
    omega

theorem status_of_matched {condition : ScheduledMessageState → Bool}
    (hc : ∀ state, condition state = true → state.status.isTerminal = false) (h : s.matched id condition = true) :
    ∃ status, s.status id = some status ∧ status.isTerminal = false := by
  obtain ⟨state, hget, hstate⟩ := (Option.any_eq_true _ _).1 h
  exact ⟨state.status, by unfold ScheduledMessageStore.status; rw [hget]; rfl, hc state hstate⟩

theorem not_terminal_of_expired {state : ScheduledMessageState} {now : Int}
    (h : Dispatcher.expired state now = true) : state.status.isTerminal = false := by
  unfold Dispatcher.expired at h
  rw [decide_eq_true_eq] at h
  rw [h.1]
  rfl

theorem not_terminal_of_claimable {now : Int} {ignoreDue : Bool} (state : ScheduledMessageState)
    (h : claimable now ignoreDue state = true) : state.status.isTerminal = false := by
  unfold claimable at h
  rcases Bool.or_eq_true_iff.1 h with hdue | hexpired
  · cases ignoreDue with
    | true =>
      rw [if_pos rfl, decide_eq_true_eq] at hdue
      rcases hdue with hs | hs <;> (rw [hs]; rfl)
    | false =>
      rw [if_neg Bool.false_ne_true, decide_eq_true_eq] at hdue
      rw [hdue.1]
      rfl
  · exact not_terminal_of_expired hexpired

theorem not_terminal_of_cancellable (state : ScheduledMessageState) (h : cancellable state = true) :
    state.status.isTerminal = false := by
  unfold cancellable at h
  rw [decide_eq_true_eq] at h
  rcases h with hs | hs | hs <;> (rw [hs]; rfl)

variable {operation : ScheduledOperation}

theorem reads_setOperation (hw : s.writes e = []) (hfresh : Fresh s operation) :
    Reads s e (s.setOperation i operation) :=
  ⟨hw, fun _ _ h => h, fun hrows => hrows, rfl, fun operation' h => by
    rcases mem_or_eq_of_mem_set h with h | rfl
    · exact .inl h
    · exact .inr hfresh⟩

theorem reads_begin (hw : s.writes e = []) (hpending : pending operation = []) :
    Reads s e (s.begin operation) := by
  refine ⟨hw, fun _ _ h => h, fun hrows => hrows, rfl, fun operation' h => ?_⟩
  rcases mem_append.1 h with h | h
  · exact .inl h
  · rw [mem_singleton.1 h]
    refine .inr (fun w hmem => ?_)
    rw [hpending] at hmem
    cases hmem

/-! ### Writing -/

variable {new : List ScheduledEffect}

theorem writes_update {operation next : ScheduledOperation} {ids : List Int} (hi : s.operations[i]? = some operation)
    (hchange : ∀ state, (change state).status = status) (hids : (s.writes e).map ScheduledWrite.id = ids)
    (hw : ∀ w ∈ s.writes e, w.status = status ∧ ∃ w' ∈ pending operation, w'.id = w.id ∧ w'.readAt = w.readAt)
    (hnew : ∀ id, (∃ x ∈ new, x.ends id = true) ↔ id ∈ ids ∧ status.isTerminal = true)
    (hnext : ∀ w ∈ pending next, w.readAt = s.effects.length + new.length ∧ w.id ∈ ids ∧ status.isTerminal = false) :
    Writes s e status (((s.update ids change).log new).setOperation i next) := by
  refine ⟨fun w hmem => ⟨(hw w hmem).1, operation, mem_of_getElem? hi, (hw w hmem).2⟩, fun id => ?_, rfl,
    ⟨new, rfl, fun id => by rw [hids]; exact hnew id⟩, fun operation' h => ?_⟩
  · rw [status_setOperation, status_log, status_update hchange, hids]
  · rcases mem_or_eq_of_mem_set h with h | rfl
    · exact .inl h
    · refine .inr (fun w hmem => ?_)
      obtain ⟨hread, hid, hterminal⟩ := hnext w hmem
      exact ⟨hread.trans (length_append).symm, hids ▸ hid, hterminal⟩


theorem fresh_of_nil (h : pending operation = []) : Fresh s operation := fun w hw => by
  rw [h] at hw
  cases hw

theorem fresh_of_matched {condition : ScheduledMessageState → Bool}
    (hc : ∀ state, condition state = true → state.status.isTerminal = false)
    (h : ∀ w ∈ pending operation, w.readAt = s.effects.length ∧ s.matched w.id condition = true) : Fresh s operation :=
  fun w hw => ⟨(h w hw).1, status_of_matched hc (h w hw).2⟩

/-- **What a completion does.** -/
theorem complete_writes
    {effects : Int → List ScheduledEffect} (hw : s.writes e = (s.operations[i]?).elim [] (completed status))
    (hchange : ∀ state, (change state).status = status)
    (heffects : ∀ id id', (∃ x ∈ effects id, x.ends id' = true) ↔ id' = id ∧ status.isTerminal = true)
    (h : s.complete i change effects = some s') : Writes s e status s' := by
  unfold complete at h
  split at h
  · rename_i owner id readAt hi
    cases h
    rw [hi] at hw
    have hw : s.writes e = [⟨id, status, readAt, some owner⟩] := hw
    refine writes_update hi hchange (by rw [hw]; rfl) (fun w hmem => ?_) (fun id' => ?_) nofun
    · rw [hw, mem_singleton] at hmem
      subst hmem
      exact ⟨rfl, _, mem_singleton_self _, rfl, rfl⟩
    · rw [heffects, mem_singleton]
  · cases h

/-- **What the next step of a call does.** -/
theorem advance_cases (hi : s.operations[i]? = some operation)
    (h : s.advance i operation = some s') : Reads s (.advance i) s' ∨ ∃ status, Writes s (.advance i) status s' := by
  have hw : s.writes (.advance i) = selected operation := by
    show (s.operations[i]?).elim [] selected = _
    rw [hi]
    rfl
  cases operation with
  | claiming owner id now leaseMs ignoreDue =>
    simp only [advance] at h
    split at h
    · cases h
    · cases h
      have hlive : ∀ state, claimable now ignoreDue state = true → state.status.isTerminal = false :=
        not_terminal_of_claimable
      refine .inl (reads_setOperation hw (fresh_of_matched hlive (fun w hmem => ?_)))
      cases hm : s.matched id (claimable now ignoreDue) with
      | false =>
        rw [hm] at hmem
        cases hmem
      | true =>
        rw [hm] at hmem
        rw [mem_singleton.1 hmem]
        exact ⟨rfl, hm⟩
  | claimSelected owner id now leaseMs matched readAt =>
    cases matched with
    | false =>
      cases h
      exact .inl (reads_setOperation hw (fresh_of_nil rfl))
    | true =>
      cases h
      refine .inr ⟨.sending, writes_update hi (fun _ => rfl) (by rw [hw]; rfl) (fun w hmem => ?_) (fun id' => ?_)
        (fun w hmem => ?_)⟩
      · rw [hw] at hmem
        rw [mem_singleton.1 hmem]
        exact ⟨rfl, _, mem_singleton_self _, rfl, rfl⟩
      · simp [ScheduledEffect.ends, ScheduledMessageStatus.isTerminal]
      · rw [mem_singleton.1 hmem]
        exact ⟨rfl, mem_singleton_self _, rfl⟩
  | holding owner id readAt => cases h
  | cancelling id =>
    cases h
    refine .inl (reads_setOperation hw (fresh_of_matched not_terminal_of_cancellable (fun w hmem => ?_)))
    cases hm : s.matched id cancellable with
    | false =>
      rw [hm] at hmem
      cases hmem
    | true =>
      rw [hm] at hmem
      rw [mem_singleton.1 hmem]
      exact ⟨rfl, hm⟩
  | cancelSelected id matched readAt =>
    cases matched with
    | false =>
      cases h
      exact .inl (reads_setOperation hw (fresh_of_nil rfl))
    | true =>
      cases h
      refine .inr ⟨.cancelled, writes_update hi (fun _ => rfl) (by rw [hw]; rfl) (fun w hmem => ?_) (fun id' => ?_) nofun⟩
      · rw [hw] at hmem
        rw [mem_singleton.1 hmem]
        exact ⟨rfl, _, mem_singleton_self _, rfl, rfl⟩
      · simp only [mem_singleton, exists_eq_left, ScheduledEffect.ends, decide_eq_true_eq, ScheduledMessageStatus.isTerminal,
          and_true]
        exact eq_comm
  | requeueing now =>
    cases h
    refine .inl (reads_setOperation hw (fresh_of_matched
      (fun state (h : Dispatcher.expired state now = true) => not_terminal_of_expired h) (fun w hmem => ?_)))
    have hmem := (mem_append.1 hmem).resolve_right nofun
    obtain ⟨id, hid, rfl⟩ := mem_map.1 hmem
    exact ⟨rfl, (mem_filter.1 hid).2⟩
  | requeueSelected ids readAt =>
    have hlog : s.update ids requeued = (s.update ids requeued).log [] := by
      unfold log
      rw [append_nil]
    have hids : (s.writes (.advance i)).map ScheduledWrite.id = ids := by
      rw [hw, selected, map_map]
      exact map_id' ids
    cases h
    rw [hlog]
    refine .inr ⟨.pending, writes_update hi (fun _ => rfl) hids (fun w hmem => ?_) (fun id' => ?_) (fun w hmem => ?_)⟩
    · rw [hw] at hmem
      obtain ⟨id, hid, rfl⟩ := mem_map.1 hmem
      exact ⟨rfl, _, mem_append_left _ hmem, rfl, rfl⟩
    · simp [ScheduledMessageStatus.isTerminal]
    · cases hmem
  | finished => cases h

/-- **What a step does**: it reads, or it writes rows of one status. -/
theorem step_cases (hrows : ∀ id status, s.status id = some status → id ≤ s.messages.length) (h : step s e = some s') :
    Reads s e s' ∨ ∃ status, Writes s e status s' := by
  cases e with
  | create platformSessionId platformConversationId tlMessageId dueAt =>
    cases h
    exact .inl ⟨rfl, fun id status hs => status_create hrows _ _ _ _ hs, rows_create, rfl, fun _ hop => .inl hop⟩
  | claim id owner now leaseMs =>
    cases h
    exact .inl (reads_begin rfl rfl)
  | claimNow id owner now leaseMs =>
    cases h
    exact .inl (reads_begin rfl rfl)
  | cancel platformSessionId platformConversationId tlMessageId =>
    simp only [step] at h
    split at h
    · cases h
      exact .inl ⟨rfl, fun _ _ hs => hs, fun hrows => hrows, rfl, fun _ hop => .inl hop⟩
    · cases h
      exact .inl (reads_begin rfl rfl)
  | requeueExpired now =>
    cases h
    exact .inl (reads_begin rfl rfl)
  | advance i =>
    obtain ⟨operation, hi, h⟩ := Option.bind_eq_some_iff.1 h
    exact advance_cases hi h
  | markSent i sentTlMessageId =>
    refine .inr ⟨.sent, complete_writes rfl (fun _ => rfl) (fun id id' => ?_) h⟩
    simp only [mem_singleton, exists_eq_left, ScheduledEffect.ends, decide_eq_true_eq,
      ScheduledMessageStatus.isTerminal, and_true]
    exact eq_comm
  | reschedule i attempts nextAttemptAt parked error =>
    refine .inr ⟨.ofParked parked, complete_writes rfl (fun _ => rfl) (fun id id' => ?_) h⟩
    cases parked <;> simp [ScheduledMessageStatus.ofParked, ScheduledMessageStatus.isTerminal]
  | release i parked error =>
    refine .inr ⟨.ofParked parked, complete_writes rfl (fun _ => rfl) (fun id id' => ?_) h⟩
    cases parked <;> simp [ScheduledMessageStatus.ofParked, ScheduledMessageStatus.isTerminal]
  | restart =>
    cases h
    exact .inl ⟨rfl, fun _ _ hs => hs, fun hrows => hrows, rfl, nofun⟩

/-! ## Whole runs -/

/-- **A row that ended is logged to have ended**: it has ended still, and no call that has yet to write it read it
after that. -/
structure Recorded (s : ScheduledMessageStore) : Prop where
  rows : ∀ id status, s.status id = some status → id ≤ s.messages.length
  ended : ∀ x ∈ s.effects, ∀ id, x.ends id = true → ∃ status, s.status id = some status ∧ status.isTerminal = true
  pending : ∀ operation ∈ s.operations, ∀ w ∈ pending operation, w.readAt ≤ s.effects.length ∧
    ∃ status, s.status w.id = some status ∧ (status.isTerminal = true → s.endedSince w.readAt w.id = true)

theorem endedSince_append {readAt : Nat} (heffects : s'.effects = s.effects ++ new)
    (h : s.endedSince readAt id = true) : s'.endedSince readAt id = true := by
  unfold endedSince at h ⊢
  rw [heffects, drop_append, any_append, h, Bool.true_or]

theorem endedSince_of_new {readAt : Nat} (heffects : s'.effects = s.effects ++ new)
    (hread : readAt ≤ s.effects.length) (h : ∃ x ∈ new, x.ends id = true) : s'.endedSince readAt id = true := by
  unfold endedSince
  rw [heffects, drop_append, Nat.sub_eq_zero_of_le hread, drop_zero, any_append, Bool.or_eq_true]
  exact .inr (any_eq_true.2 h)

/-- **A step keeps what ended if and only if it is undisturbed.** -/
theorem keepsEnded_iff (hs : Recorded s) (h : step s e = some s') : Undisturbed s e ↔ KeepsEnded s e s' := by
  rcases step_cases hs.rows h with hreads | ⟨status, hwrites⟩
  · have hnone : ∀ w ∈ s.writes e, False := fun w hw => by
      rw [hreads.writes] at hw
      cases hw
    exact ⟨fun _ => ⟨fun id status hstatus _ => hreads.status id status hstatus, fun w hw => (hnone w hw).elim⟩,
      fun _ w hw => (hnone w hw).elim⟩
  · have hrow : ∀ w ∈ s.writes e, s'.status w.id = (s.status w.id).map (fun _ => w.status) := fun w hw => by
      rw [hwrites.rows, if_pos (mem_map_of_mem hw), (hwrites.writes w hw).1]
    constructor
    · intro hok
      refine ⟨fun id old hold hterminal => ?_, fun w hw htaken => ?_⟩
      · by_cases hid : id ∈ (s.writes e).map ScheduledWrite.id
        · obtain ⟨w, hw, rfl⟩ := mem_map.1 hid
          rcases hok w hw with hsame | ⟨hopen, -⟩
          · rw [hrow w hw, hold, ← hold, hsame]
            rfl
          · -- the row ended since it was read
            obtain ⟨-, operation, hop, w', hw', hid', hread⟩ := hwrites.writes w hw
            obtain ⟨-, status', hstatus', hended⟩ := hs.pending operation hop w' hw'
            rw [hid', hold] at hstatus'
            cases hstatus'
            have := hended hterminal
            rw [hid', hread, hopen] at this
            cases this
        · rw [hwrites.rows, if_neg hid, hold]
      · rcases hok w hw with hsame | ⟨-, hmine⟩
        · rw [hrow w hw, hsame]
          rfl
        · rw [hmine] at htaken
          cases htaken
    · rintro ⟨hkept, hholders⟩ w hw
      obtain ⟨-, operation, hop, w', hw', hid', -⟩ := hwrites.writes w hw
      obtain ⟨-, old, hold, -⟩ := hs.pending operation hop w' hw'
      rw [hid'] at hold
      have hnew : s'.status w.id = some w.status := by
        rw [hrow w hw, hold]
        rfl
      by_cases hsame : s.status w.id = some w.status
      · exact .inl hsame
      · refine .inr ⟨Bool.eq_false_iff.2 (fun hended => hsame ?_), Bool.eq_false_iff.2 (fun htaken => hsame ?_)⟩
        · obtain ⟨x, hx, hends⟩ := any_eq_true.1 hended
          obtain ⟨status', hstatus', hterminal⟩ := hs.ended x (mem_of_mem_drop hx) w.id hends
          rw [← hnew, hkept w.id status' hstatus' hterminal, hstatus']
        · rw [← hnew, hholders w hw htaken]

theorem Recorded.step (hs : Recorded s) (hok : Undisturbed s e) (h : step s e = some s') : Recorded s' := by
  have hkept := ((keepsEnded_iff hs h).1 hok).1
  rcases step_cases hs.rows h with hreads | ⟨status, hwrites⟩
  · have hended : ∀ readAt id, s.endedSince readAt id = true → s'.endedSince readAt id = true := fun readAt id h =>
      endedSince_append (hreads.effects.trans (append_nil _).symm) h
    refine ⟨hreads.rows hs.rows, fun x hx id hends => ?_, fun operation hop w hw => ?_⟩
    · rw [hreads.effects] at hx
      obtain ⟨status, hstatus, hterminal⟩ := hs.ended x hx id hends
      exact ⟨status, hreads.status id status hstatus, hterminal⟩
    · rw [hreads.effects]
      rcases hreads.operations operation hop with hold | hfresh
      · obtain ⟨hread, status, hstatus, hlogged⟩ := hs.pending operation hold w hw
        exact ⟨hread, status, hreads.status _ _ hstatus, fun hterminal => hended _ _ (hlogged hterminal)⟩
      · obtain ⟨hread, status, hstatus, hopen⟩ := hfresh w hw
        refine ⟨hread.le, status, hreads.status _ _ hstatus, fun hterminal => ?_⟩
        rw [hopen] at hterminal
        cases hterminal
  · obtain ⟨new, heffects, hnew⟩ := hwrites.effects
    have hrow : ∀ id old, s.status id = some old →
        s'.status id = some (if id ∈ (s.writes e).map ScheduledWrite.id then status else old) := fun id old hold => by
      rw [hwrites.rows, hold]
      split <;> rfl
    refine ⟨fun id status' hstatus' => ?_, fun x hx id hends => ?_, fun operation hop w hw => ?_⟩
    · rw [hwrites.messages]
      rw [hwrites.rows] at hstatus'
      cases hold : s.status id with
      | none => simp [hold] at hstatus'
      | some old => exact hs.rows id old hold
    · rw [heffects] at hx
      rcases mem_append.1 hx with hx | hx
      · obtain ⟨old, hold, hterminal⟩ := hs.ended x hx id hends
        exact ⟨old, hkept id old hold hterminal, hterminal⟩
      · -- the row is written, so it is there
        obtain ⟨hid, hterminal⟩ := (hnew id).1 ⟨x, hx, hends⟩
        obtain ⟨w, hw, rfl⟩ := mem_map.1 hid
        obtain ⟨-, operation, hop, w', hw', hid', -⟩ := hwrites.writes w hw
        obtain ⟨-, old, hold, -⟩ := hs.pending operation hop w' hw'
        rw [hid'] at hold
        exact ⟨status, by rw [hrow w.id old hold, if_pos hid], hterminal⟩
    · rcases hwrites.operations operation hop with hold | hfresh
      · obtain ⟨hread, old, hstatus, hlogged⟩ := hs.pending operation hold w hw
        refine ⟨by rw [heffects, length_append]; omega, _, hrow w.id old hstatus, fun hterminal => ?_⟩
        by_cases hid : w.id ∈ (s.writes e).map ScheduledWrite.id
        · rw [if_pos hid] at hterminal
          exact endedSince_of_new heffects hread ((hnew w.id).2 ⟨hid, hterminal⟩)
        · rw [if_neg hid] at hterminal
          exact endedSince_append heffects (hlogged hterminal)
      · obtain ⟨hread, hid, hopen⟩ := hfresh w hw
        obtain ⟨v, hv, hvid⟩ := mem_map.1 hid
        obtain ⟨-, operation', hop', v', hv', hvid', -⟩ := hwrites.writes v hv
        obtain ⟨-, old, hstatus, -⟩ := hs.pending operation' hop' v' hv'
        rw [hvid', hvid] at hstatus
        refine ⟨hread.le, _, hrow w.id old hstatus, fun hterminal => ?_⟩
        rw [if_pos hid, hopen] at hterminal
        cases hterminal

theorem recorded_empty : Recorded empty := ⟨nofun, nofun, nofun⟩

theorem recorded_of_reachable (h : Runs.Reachable step Undisturbed empty s) : Recorded s :=
  h.invariant recorded_empty (fun _ _ _ _ hs hok hstep => hs.step hok hstep)

/-- **Cancelled and sent are terminal in the undisturbed runs**: a row that has ended keeps its status in every later
state, and at every state of such a run a step keeps what has ended, and leaves a lease that was taken over without
effect, if and only if it is undisturbed. -/
theorem ended_stays_ended (h : Runs.Reachable step Undisturbed empty s) :
    (∀ s', Runs.Reachable step Undisturbed s s' → ∀ id status, s.status id = some status →
      status.isTerminal = true → s'.status id = some status) ∧
    ∀ e s', step s e = some s' → (Undisturbed s e ↔ KeepsEnded s e s') := by
  refine ⟨fun s' hrun id status hstatus hterminal => ?_, fun e s' hstep => keepsEnded_iff (recorded_of_reachable h) hstep⟩
  have hlater : Recorded s' ∧ s'.status id = some status :=
    hrun.invariant (I := fun t => Recorded t ∧ t.status id = some status) ⟨recorded_of_reachable h, hstatus⟩
      (fun t e t' _ ht hok hstep => ⟨ht.1.step hok hstep, ((keepsEnded_iff ht.1 hstep).1 hok).1 id status ht.2 hterminal⟩)
  exact hlater.2

def after (events : List ScheduledStoreEvent) : ScheduledMessageStore := (Runs.run step empty events).getD empty

def dispatched : List ScheduledStoreEvent :=
  [.create "session" "conversation" 7 100, .claim 1 "scheduler" 100 60000, .advance 0, .advance 0]

def delivered : ScheduledMessageStore := after (dispatched ++ [.markSent 0 (some 9)])

theorem delivered_reachable : Runs.Reachable step Undisturbed empty delivered := by
  have htested : Runs.run (fun s e => if decide (Undisturbed s e) = true then step s e else none) empty
      (dispatched ++ [.markSent 0 (some 9)]) = some delivered := by decide
  exact Runs.reachable_of_tested_run (fun _ _ h => of_decide_eq_true h) .init htested

theorem delivered_stays_sent :
    delivered.status 1 = some .sent ∧
      ∀ s, Runs.Reachable step Undisturbed delivered s → s.status 1 = some .sent :=
  ⟨by decide, fun s h => (ended_stays_ended delivered_reachable).1 s h 1 .sent (by decide) rfl⟩

def cancelledInFlight : List ScheduledStoreEvent :=
  dispatched ++ [.cancel "session" "conversation" 7, .advance 1, .advance 1]

def takenInFlight : List ScheduledStoreEvent :=
  dispatched ++ [.claimNow 1 "send-now-session" 161 60000, .advance 1, .advance 1]

/-- **The completions that break it**: the failure of the send puts a cancelled row back to pending, and the first of two
holders marks the row sent under the lease of the second. -/
theorem completion_after_cancel_or_takeover :
    (¬ ∀ s, Runs.Reachable step (fun _ _ => True) empty s → ∀ e s', step s e = some s' → ∀ id status,
      s.status id = some status → status.isTerminal = true → s'.status id = some status) ∧
    ¬ ∀ s, Runs.Reachable step (fun _ _ => True) empty s → ∀ e s', step s e = some s' →
      ∀ w ∈ s.writes e, s.takenOver w = true → s'.status w.id = s.status w.id := by
  have hreach : ∀ events, Runs.run step empty events = some (after events) →
      Runs.Reachable step (fun _ _ => True) empty (after events) := fun events hrun =>
    Runs.reachable_of_run (fun _ _ _ => trivial) .init hrun
  constructor
  · intro h
    have := h _ (hreach cancelledInFlight rfl) (.reschedule 0 1 130 false (some "failed")) _ rfl 1 .cancelled rfl rfl
    exact absurd this (by decide)
  · intro h
    have := h _ (hreach takenInFlight rfl) (.markSent 0 (some 9)) _ rfl ⟨1, .sent, 1, some "scheduler"⟩ (by decide) (by decide)
    exact absurd this (by decide)

end ScheduledMessageStore
end Crossgram
