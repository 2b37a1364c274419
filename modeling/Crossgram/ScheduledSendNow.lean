import Crossgram.ScheduledStore
/-!
# ScheduledSendNow — sending scheduled messages now (packages/bridge/src/dialogs.ts)

`sendScheduledMessages` reads its rows once, then claims, sends and marks them one after the other, each step a wait
during which the dispatcher, cancels and other calls use the store.  It ends at the first send that fails; the update
that names the rows it removed is built after the loop.
-/
namespace Crossgram
namespace ScheduledSendNow

open Option List ScheduledMessageStore

structure ScheduledRow where
  id : Int
  tlMessageId : Int
  status : ScheduledMessageStatus
deriving DecidableEq

inductive SentUpdate
  | updateMessageID (id randomId : Int)
  | updateNewMessage (id : Int)
  | updateNewChannelMessage (id : Int)
  | other (id : Nat)
deriving DecidableEq

inductive TlUpdate
  | sent (update : SentUpdate)
  | updateDeleteScheduledMessages (peer : String) (messages : List Int) (sentMessages : Option (List Int))
deriving DecidableEq

inductive Phase
  | looping
  | claiming (row : ScheduledRow) (operation : Nat)
  | sending (row : ScheduledRow) (operation : Nat)
  | sent (row : ScheduledRow) (operation : Nat) (newId : Option Int)
  | threw (row : ScheduledRow) (operation : Nat) (error : String)
  | returned (updates : List TlUpdate)
  | rejected (error : String)
deriving DecidableEq

/-- The call, and what is kept for the statements: the rows it claimed, those it marked sent with the new id, and those
it put back. -/
structure Call where
  owner : String
  conversation : String
  rows : List ScheduledRow
  phase : Phase
  updates : List SentUpdate
  removedIds : List Int
  sentIds : List Int
  claimed : List ScheduledRow
  marked : List (ScheduledRow × Option Int)
  released : List ScheduledRow

structure State where
  store : ScheduledMessageStore
  call : Call

/-- `list`: the rows that are neither sent nor cancelled. -/
def list (store : ScheduledMessageStore) (platformSessionId platformConversationId : String) : List ScheduledRow :=
  store.states.filterMap (fun e =>
    if e.2.status = .sent ∨ e.2.status = .cancelled then none
    else (store.messages.find? (fun message => message.id = e.1)).bind (fun message =>
      if message.platformSessionId = platformSessionId ∧ message.platformConversationId = platformConversationId then
        some ⟨e.1, message.tlMessageId, e.2.status⟩
      else none))

def byTlIds (store : ScheduledMessageStore) (platformSessionId platformConversationId : String) (tlMessageIds : List Int) :
    List ScheduledRow :=
  (list store platformSessionId platformConversationId).filter (fun row => row.tlMessageId ∈ tlMessageIds)

/-- `sendScheduledMessages` up to the loop. -/
def sendScheduledMessages (store : ScheduledMessageStore) (platformSessionId conversation : String) (ids : List Int) :
    Except String State :=
  let rows := byTlIds store platformSessionId conversation ids
  if rows.isEmpty then .error "MESSAGE_ID_INVALID"
  else .ok ⟨store,
    { owner := "send-now-" ++ platformSessionId
      conversation := conversation
      rows := rows
      phase := .looping
      updates := []
      removedIds := []
      sentIds := []
      claimed := []
      marked := []
      released := [] }⟩

def newMessageId : SentUpdate → Option Int
  | .updateNewMessage id        => some id
  | .updateNewChannelMessage id => some id
  | _                           => none

def isMessageId : SentUpdate → Bool
  | .updateMessageID _ _ => true
  | _                    => false

/-- `sentMessages` is left out where an id is missing. -/
def sentMessages (sentIds removedIds : List Int) : Option (List Int) :=
  if sentIds ≠ [] ∧ sentIds.length = removedIds.length then some sentIds else none

/-- `other` is a step of the store that is not of this call. -/
inductive Event
  | other (event : ScheduledStoreEvent)
  | claimNow (now : Int)
  | claimReturns
  | sendReturns (updates : List SentUpdate)
  | sendThrows (error : String)
  | markSent
  | release
  | finish

def Phase.operation : Phase → Option Nat
  | .claiming _ i => some i
  | .sending _ i  => some i
  | .sent _ i _   => some i
  | .threw _ i _  => some i
  | _             => none

def foreign (own : Option Nat) : ScheduledStoreEvent → Bool
  | .markSent i _           => own ≠ some i
  | .reschedule i _ _ _ _   => own ≠ some i
  | .release i _ _          => own ≠ some i
  | .restart                => false
  | _                       => true

def step (s : State) : Event → Option State
  | .other event =>
    if foreign s.call.phase.operation event then (s.store.step event).map (fun store => { s with store := store })
    else none
  | .claimNow now =>
    match s.call.phase, s.call.rows with
    | .looping, row :: rows =>
      (s.store.step (.claimNow row.id s.call.owner now scheduledMessageLeaseMs)).map (fun store =>
        ⟨store, { s.call with rows := rows, phase := .claiming row s.store.operations.length }⟩)
    | _, _ => none
  | .claimReturns =>
    match s.call.phase with
    | .claiming row i =>
      match s.store.operations[i]? with
      | some (.holding _ _ _) => some { s with call := { s.call with
          phase := .sending row i, claimed := s.call.claimed ++ [row] } }
      | some .finished        => some { s with call := { s.call with phase := .looping } }
      | _                     => none
    | _ => none
  | .sendReturns sentUpdates =>
    match s.call.phase with
    | .sending row i =>
      let newId := sentUpdates.findSome? newMessageId
      some { s with call := { s.call with
        phase := .sent row i newId
        updates := s.call.updates ++ sentUpdates.filter (fun update => !isMessageId update)
        sentIds := s.call.sentIds ++ newId.toList } }
    | _ => none
  | .sendThrows error =>
    match s.call.phase with
    | .sending row i => some { s with call := { s.call with phase := .threw row i error } }
    | _              => none
  | .markSent =>
    match s.call.phase with
    | .sent row i newId =>
      (s.store.step (.markSent i newId)).map (fun store => ⟨store, { s.call with
        phase := .looping
        removedIds := s.call.removedIds ++ [row.tlMessageId]
        marked := s.call.marked ++ [(row, newId)] }⟩)
    | _ => none
  | .release =>
    match s.call.phase with
    | .threw row i error =>
      (s.store.step (.release i (decide (row.status = .failed)) (some error))).map (fun store => ⟨store, { s.call with
        phase := .rejected error
        released := s.call.released ++ [row] }⟩)
    | _ => none
  | .finish =>
    match s.call.phase, s.call.rows with
    | .looping, [] => some { s with call := { s.call with
        phase := .returned (s.call.updates.map .sent ++ [.updateDeleteScheduledMessages s.call.conversation
          s.call.removedIds (sentMessages s.call.sentIds s.call.removedIds)]) } }
    | _, _ => none

/-! ## What a call answers for -/

def Phase.ended : Phase → Bool
  | .returned _ => true
  | .rejected _ => true
  | _           => false

def deleted : TlUpdate → List Int
  | .updateDeleteScheduledMessages _ messages _ => messages
  | _                                           => []

def Phase.announced : Phase → List Int
  | .returned updates => updates.flatMap deleted
  | _                 => []

def Announces (s : State) : Prop :=
  s.call.phase.ended = true → ∀ m ∈ s.call.marked, m.1.tlMessageId ∈ s.call.phase.announced

def FailsFirst (s : State) (e : Event) : Prop := ∀ error, e = .sendThrows error → s.call.marked = []

/-! ## The store under a call -/

section
variable {s s' : ScheduledMessageStore} {e : ScheduledStoreEvent}

def RowsNumbered (s : ScheduledMessageStore) : Prop := ∀ id status, s.status id = some status → id ≤ s.messages.length

theorem rows_step (hrows : RowsNumbered s) (h : s.step e = some s') :
    RowsNumbered s' ∧ ∀ id, (s.status id).isSome = true → (s'.status id).isSome = true := by
  rcases step_cases hrows h with hreads | ⟨status, hwrites⟩
  · refine ⟨hreads.rows hrows, fun id hid => ?_⟩
    obtain ⟨old, hold⟩ := isSome_iff_exists.1 hid
    rw [hreads.status id old hold]
    rfl
  · refine ⟨fun id new hnew => ?_, fun id hid => ?_⟩
    · rw [hwrites.messages]
      rw [hwrites.rows] at hnew
      cases hold : s.status id with
      | none     => simp [hold] at hnew
      | some old => exact hrows id old hold
    · rw [hwrites.rows]
      split
      · rw [isSome_map]
        exact hid
      · exact hid

def Serves (owner : String) (id : Int) : ScheduledOperation → Prop
  | .claiming owner' id' _ _ _        => owner' = owner ∧ id' = id
  | .claimSelected owner' id' _ _ _ _ => owner' = owner ∧ id' = id
  | .holding owner' id' _             => owner' = owner ∧ id' = id
  | .finished                         => True
  | _                                 => False

def isHolding : ScheduledOperation → Bool
  | .holding _ _ _ => true
  | _              => false

variable {operation : ScheduledOperation}

theorem serves_advance {owner : String} {id : Int} {i : Nat}
    (hi : i < s.operations.length) (hserves : Serves owner id operation) (h : s.advance i operation = some s') :
    isHolding operation = false ∧ ∃ next, s'.operations[i]? = some next ∧ Serves owner id next := by
  have hset : ∀ next, (s.operations.set i next)[i]? = some next := fun next => by
    rw [getElem?_set_self hi]
  cases operation with
  | claiming owner' id' now leaseMs ignoreDue =>
    simp only [advance] at h
    split at h
    · cases h
    · cases h
      exact ⟨rfl, _, hset _, hserves⟩
  | claimSelected owner' id' now leaseMs matched readAt =>
    cases matched with
    | true  =>
      cases h
      exact ⟨rfl, _, hset _, hserves⟩
    | false =>
      cases h
      exact ⟨rfl, _, hset _, trivial⟩
  | holding owner' id' readAt => cases h
  | finished => cases h
  | cancelling id => exact hserves.elim
  | cancelSelected id matched readAt => exact hserves.elim
  | requeueing now => exact hserves.elim
  | requeueSelected ids readAt => exact hserves.elim

theorem getElem?_complete {i j : Nat} {change : ScheduledMessageState → ScheduledMessageState}
    {effects : Int → List ScheduledEffect} (hne : j ≠ i) (h : s.complete j change effects = some s') :
    s'.operations[i]? = s.operations[i]? := by
  unfold complete at h
  split at h
  · cases h
    exact getElem?_set_ne hne
  · cases h

theorem getElem?_advance {i j : Nat} (hne : j ≠ i) (h : s.advance j operation = some s') :
    s'.operations[i]? = s.operations[i]? := by
  have hset : ∀ next, (s.operations.set j next)[i]? = s.operations[i]? := fun next => getElem?_set_ne hne
  cases operation with
  | claiming owner id now leaseMs ignoreDue =>
    simp only [advance] at h
    split at h
    · cases h
    · cases h
      exact hset _
  | claimSelected owner id now leaseMs matched readAt =>
    cases matched <;> (cases h; exact hset _)
  | cancelSelected id matched readAt =>
    cases matched <;> (cases h; exact hset _)
  | holding owner id readAt => cases h
  | finished => cases h
  | cancelling id =>
    cases h
    exact hset _
  | requeueing now =>
    cases h
    exact hset _
  | requeueSelected ids readAt =>
    cases h
    exact hset _

/-- **A claim goes on** whatever others do, and a row that is held stays held. -/
theorem serves_step {owner : String} {id : Int} {i : Nat}
    (hi : s.operations[i]? = some operation) (hserves : Serves owner id operation) (hforeign : foreign (some i) e = true)
    (h : s.step e = some s') :
    ∃ next, s'.operations[i]? = some next ∧ Serves owner id next ∧ (isHolding operation = true → next = operation) := by
  have hlt : i < s.operations.length := (List.getElem?_eq_some_iff.1 hi).1
  have hbegin : ∀ new, (s.operations ++ [new])[i]? = some operation := fun new => by
    rw [List.getElem?_append_left hlt]
    exact hi
  cases e with
  | create platformSessionId platformConversationId tlMessageId dueAt =>
    cases h
    exact ⟨operation, hi, hserves, fun _ => rfl⟩
  | claim id' owner' now leaseMs =>
    cases h
    exact ⟨operation, hbegin _, hserves, fun _ => rfl⟩
  | claimNow id' owner' now leaseMs =>
    cases h
    exact ⟨operation, hbegin _, hserves, fun _ => rfl⟩
  | cancel platformSessionId platformConversationId tlMessageId =>
    simp only [ScheduledMessageStore.step] at h
    split at h
    · cases h
      exact ⟨operation, hi, hserves, fun _ => rfl⟩
    · cases h
      exact ⟨operation, hbegin _, hserves, fun _ => rfl⟩
  | requeueExpired now =>
    cases h
    exact ⟨operation, hbegin _, hserves, fun _ => rfl⟩
  | advance j =>
    obtain ⟨operation', hj, h⟩ := bind_eq_some_iff.1 h
    by_cases hij : j = i
    · subst hij
      rw [hi] at hj
      cases hj
      obtain ⟨hfree, next, hnext, hserves'⟩ := serves_advance hlt hserves h
      refine ⟨next, hnext, hserves', fun hholding => ?_⟩
      rw [hholding] at hfree
      cases hfree
    · refine ⟨operation, ?_, hserves, fun _ => rfl⟩
      rw [getElem?_advance hij h, hi]
  | markSent j sentTlMessageId =>
    have hij : some i ≠ some j := of_decide_eq_true hforeign
    exact ⟨operation, (getElem?_complete (fun heq => hij (congrArg some heq.symm)) h).trans hi, hserves, fun _ => rfl⟩
  | reschedule j attempts nextAttemptAt parked error =>
    have hij : some i ≠ some j := of_decide_eq_true hforeign
    exact ⟨operation, (getElem?_complete (fun heq => hij (congrArg some heq.symm)) h).trans hi, hserves, fun _ => rfl⟩
  | release j parked error =>
    have hij : some i ≠ some j := of_decide_eq_true hforeign
    exact ⟨operation, (getElem?_complete (fun heq => hij (congrArg some heq.symm)) h).trans hi, hserves, fun _ => rfl⟩
  | restart => cases hforeign

end

/-! ## What holds while a call runs -/

def Phase.row : Phase → Option ScheduledRow
  | .claiming row _ => some row
  | .sending row _  => some row
  | .sent row _ _   => some row
  | .threw row _ _  => some row
  | _               => none

def Phase.held : Phase → List ScheduledRow
  | .sending row _ => [row]
  | .sent row _ _  => [row]
  | .threw row _ _ => [row]
  | _              => []

def Phase.newId : Phase → List Int
  | .sent _ _ newId => newId.toList
  | _               => []

structure Inv (s : State) : Prop where
  numbered : RowsNumbered s.store
  present : ∀ row, row ∈ s.call.rows ∨ s.call.phase.row = some row → (s.store.status row.id).isSome = true
  serves : ∀ row i, s.call.phase.row = some row → s.call.phase.operation = some i → ∃ operation,
    s.store.operations[i]? = some operation ∧ Serves s.call.owner row.id operation ∧
      (s.call.phase.held ≠ [] → isHolding operation = true)
  accounted : s.call.claimed = s.call.marked.map Prod.fst ++ s.call.phase.held ++ s.call.released
  removed : s.call.removedIds = s.call.marked.map (fun m => m.1.tlMessageId)
  sent : s.call.sentIds = s.call.marked.filterMap Prod.snd ++ s.call.phase.newId
  released : s.call.released ≠ [] → ∃ error, s.call.phase = .rejected error
  returned : ∀ updates, s.call.phase = .returned updates →
    updates = s.call.updates.map .sent ++ [.updateDeleteScheduledMessages s.call.conversation s.call.removedIds
      (sentMessages s.call.sentIds s.call.removedIds)]

variable {s s' : State}

variable {store : ScheduledMessageStore}

theorem mem_byTlIds {platformSessionId conversation : String} {ids : List Int}
    {row : ScheduledRow} (h : row ∈ byTlIds store platformSessionId conversation ids) :
    (store.status row.id).isSome = true := by
  obtain ⟨hlist, _⟩ := mem_filter.1 h
  obtain ⟨e, he, hrow⟩ := mem_filterMap.1 hlist
  have hid : row.id = e.1 := by
    split at hrow
    · cases hrow
    · obtain ⟨message, _, hmessage⟩ := bind_eq_some_iff.1 hrow
      split at hmessage
      · cases hmessage
        rfl
      · cases hmessage
  have hget : (Maps.get store.states row.id).isSome = true := by
    rw [hid, isSome_iff_ne_none]
    exact fun hnone => Maps.get_eq_none.1 hnone e he rfl
  unfold ScheduledMessageStore.status
  rw [isSome_map]
  exact hget

theorem Inv.start (hrows : RowsNumbered store) {platformSessionId conversation : String}
    {ids : List Int} (h : sendScheduledMessages store platformSessionId conversation ids = .ok s) : Inv s := by
  unfold sendScheduledMessages at h
  dsimp only at h
  split at h
  · cases h
  · cases h
    refine ⟨hrows, fun row hrow => ?_, fun _ _ h => (by cases h), rfl, rfl, rfl, fun h => absurd rfl h, fun _ h => (by cases h)⟩
    rcases hrow with hrow | hrow
    · exact mem_byTlIds hrow
    · cases hrow

theorem status_complete {store store' : ScheduledMessageStore} {i : Nat} {owner : String} {id : Int}
    {operation : ScheduledOperation} (hi : store.operations[i]? = some operation) (hserves : Serves owner id operation)
    (hholding : isHolding operation = true) {change : ScheduledMessageState → ScheduledMessageState}
    {status : ScheduledMessageStatus} (hchange : ∀ state, (change state).status = status)
    {effects : Int → List ScheduledEffect} (h : store.complete i change effects = some store')
    (hpresent : (store.status id).isSome = true) : store'.status id = some status := by
  cases operation with
  | holding owner' id' readAt =>
    obtain ⟨_, rfl⟩ := hserves
    unfold complete at h
    rw [hi] at h
    cases h
    rw [status_setOperation, status_log, status_update hchange, if_pos (mem_singleton_self _)]
    obtain ⟨old, hold⟩ := isSome_iff_exists.1 hpresent
    rw [hold]
    rfl
  | _ => cases hholding

theorem Inv.released_nil (h : Inv s) (hphase : ∀ error, s.call.phase ≠ .rejected error) : s.call.released = [] := by
  by_contra hne
  obtain ⟨error, heq⟩ := h.released hne
  exact hphase error heq

theorem Inv.other (h : Inv s) {event : ScheduledStoreEvent} (hforeign : foreign s.call.phase.operation event = true)
    (hs : s.store.step event = some store) : Inv { s with store := store } := by
  obtain ⟨hnumbered, hpresent⟩ := rows_step h.numbered hs
  refine ⟨hnumbered, fun row hrow => hpresent row.id (h.present row hrow), fun row i hrow hi => ?_, h.accounted, h.removed,
    h.sent, h.released, h.returned⟩
  obtain ⟨operation, hget, hserves, hholding⟩ := h.serves row i hrow hi
  have hphase : s.call.phase.operation = some i := hi
  rw [hphase] at hforeign
  obtain ⟨next, hnext, hserves', hkept⟩ := serves_step hget hserves hforeign hs
  refine ⟨next, hnext, hserves', fun hheld => ?_⟩
  have hhold := hholding hheld
  rw [hkept hhold]
  exact hhold

theorem Inv.claimNow (h : Inv s) {now : Int} (hs : step s (.claimNow now) = some s') : Inv s' := by
  dsimp only [step] at hs
  split at hs
  · rename_i row rest hphase hrows
    obtain ⟨store, hstore, rfl⟩ := map_eq_some_iff.1 hs
    obtain ⟨hnumbered, hpresent⟩ := rows_step h.numbered hstore
    have hrow : ∀ row', row' ∈ row :: rest → (store.status row'.id).isSome = true := fun row' hmem =>
      hpresent row'.id (h.present row' (.inl (hrows ▸ hmem)))
    refine ⟨hnumbered, fun row' hmem => ?_, fun row' i hrow' hi => ?_, ?_, h.removed, ?_, fun hne => ?_, fun _ h => (by cases h)⟩
    · rcases hmem with hmem | hmem
      · exact hrow row' (mem_cons_of_mem _ hmem)
      · cases hmem
        exact hrow row mem_cons_self
    · cases hrow'
      cases hi
      cases hstore
      refine ⟨_, getElem?_concat_length, ⟨rfl, rfl⟩, fun hheld => absurd rfl hheld⟩
    · have haccounted := h.accounted
      rw [hphase] at haccounted
      exact haccounted
    · have hsent := h.sent
      rw [hphase] at hsent
      exact hsent
    · exact absurd (h.released_nil (fun _ heq => (by rw [hphase] at heq; cases heq))) hne
  · cases hs

theorem Inv.claimReturns (h : Inv s) (hs : step s .claimReturns = some s') : Inv s' := by
  dsimp only [step] at hs
  split at hs
  · rename_i row i hphase
    have hreleased := h.released_nil (fun _ heq => (by rw [hphase] at heq; cases heq))
    have haccounted := h.accounted
    have hsent := h.sent
    rw [hphase] at haccounted hsent
    split at hs
    · rename_i owner id readAt hi
      cases hs
      obtain ⟨operation, hget, hserves, _⟩ := h.serves row i (by rw [hphase]; rfl) (by rw [hphase]; rfl)
      rw [hi] at hget
      cases hget
      refine ⟨h.numbered, fun row' hmem => ?_, fun row' i' hrow' hi' => ?_, ?_, h.removed, hsent, fun hne => ?_, fun _ h => (by cases h)⟩
      · refine h.present row' (hmem.imp_right (fun heq => ?_))
        rw [hphase]
        exact heq
      · cases hrow'
        cases hi'
        exact ⟨_, hi, hserves, fun _ => rfl⟩
      · show s.call.claimed ++ [row] = _
        rw [haccounted, hreleased]
        show s.call.marked.map Prod.fst ++ [] ++ [] ++ [row] = s.call.marked.map Prod.fst ++ [row] ++ []
        rw [append_nil, append_nil, append_nil]
      · exact absurd hreleased hne
    · cases hs
      refine ⟨h.numbered, fun row' hmem => ?_, fun _ _ h => (by cases h), haccounted, h.removed, hsent, fun hne => ?_, fun _ h => (by cases h)⟩
      · rcases hmem with hmem | hmem
        · exact h.present row' (.inl hmem)
        · cases hmem
      · exact absurd hreleased hne
    · cases hs
  · cases hs

theorem Inv.sendOver (h : Inv s) {row : ScheduledRow} {i : Nat} (hphase : s.call.phase = .sending row i) (phase : Phase)
    (hrow : phase.row = some row) (hoperation : phase.operation = some i) (hheld : phase.held = [row])
    (updates : List SentUpdate) :
    Inv { s with call := { s.call with
      phase := phase, updates := updates, sentIds := s.call.sentIds ++ phase.newId } } := by
  have hreleased := h.released_nil (fun _ heq => (by rw [hphase] at heq; cases heq))
  have haccounted := h.accounted
  have hsent := h.sent
  have hserves := h.serves row i (by rw [hphase]; rfl) (by rw [hphase]; rfl)
  rw [hphase] at haccounted hsent hserves
  refine ⟨h.numbered, fun row' hmem => ?_, fun row' i' hrow' hi' => ?_, ?_, h.removed, ?_, fun hne => absurd hreleased hne, fun _ heq => ?_⟩
  · refine h.present row' (hmem.imp_right (fun heq => ?_))
    rw [hphase]
    exact hrow.symm.trans heq
  · have hrow' : phase.row = some row' := hrow'
    have hi' : phase.operation = some i' := hi'
    rw [hrow] at hrow'
    rw [hoperation] at hi'
    cases hrow'
    cases hi'
    obtain ⟨operation, hget, hserves, hholding⟩ := hserves
    exact ⟨operation, hget, hserves, fun _ => hholding (cons_ne_nil _ _)⟩
  · show s.call.claimed = s.call.marked.map Prod.fst ++ phase.held ++ s.call.released
    rw [hheld]
    exact haccounted
  · show s.call.sentIds ++ phase.newId = s.call.marked.filterMap Prod.snd ++ phase.newId
    rw [hsent]
    show s.call.marked.filterMap Prod.snd ++ [] ++ phase.newId = _
    rw [append_nil]
  · have heq : phase = _ := heq
    rw [heq] at hrow
    cases hrow

theorem Inv.sendReturns (h : Inv s) {updates : List SentUpdate} (hs : step s (.sendReturns updates) = some s') : Inv s' := by
  dsimp only [step] at hs
  split at hs
  · rename_i row i hphase
    cases hs
    exact h.sendOver hphase (.sent row i (updates.findSome? newMessageId)) rfl rfl rfl _
  · cases hs

variable {error : String}

theorem Inv.sendThrows (h : Inv s) (hs : step s (.sendThrows error) = some s') : Inv s' := by
  dsimp only [step] at hs
  split at hs
  · rename_i row i hphase
    cases hs
    have hover := h.sendOver hphase (.threw row i error) rfl rfl rfl s.call.updates
    have hnone : s.call.sentIds ++ (Phase.threw row i error).newId = s.call.sentIds := append_nil _
    rw [hnone] at hover
    exact hover
  · cases hs

theorem Inv.markSent (h : Inv s) (hs : step s .markSent = some s') :
    Inv s' ∧ ∃ m, s'.call.marked = s.call.marked ++ [m] ∧ s'.store.status m.1.id = some .sent := by
  dsimp only [step] at hs
  split at hs
  · rename_i row i newId hphase
    obtain ⟨store, hstore, rfl⟩ := map_eq_some_iff.1 hs
    obtain ⟨hnumbered, hpresent⟩ := rows_step h.numbered hstore
    have hreleased := h.released_nil (fun _ heq => (by rw [hphase] at heq; cases heq))
    obtain ⟨operation, hget, hserves, hholding⟩ := h.serves row i (by rw [hphase]; rfl) (by rw [hphase]; rfl)
    have hrow := h.present row (.inr (by rw [hphase]; rfl))
    have haccounted := h.accounted
    have hsent := h.sent
    rw [hphase] at haccounted hsent hholding
    have hcomplete : s.store.complete i (Dispatcher.markSent newId) (fun id => [.sent id]) = some store := hstore
    refine ⟨⟨hnumbered, fun row' hmem => ?_, fun _ _ h => (by cases h), ?_, ?_, ?_, fun hne => absurd hreleased hne,
      fun _ h => (by cases h)⟩, (row, newId), rfl,
      status_complete hget hserves (hholding (cons_ne_nil _ _)) (fun _ => rfl) hcomplete hrow⟩
    · rcases hmem with hmem | hmem
      · exact hpresent row'.id (h.present row' (.inl hmem))
      · cases hmem
    · show s.call.claimed = (s.call.marked ++ [(row, newId)]).map Prod.fst ++ [] ++ s.call.released
      rw [haccounted, map_append, append_nil]
      rfl
    · show s.call.removedIds ++ [row.tlMessageId] = (s.call.marked ++ [(row, newId)]).map (fun m => m.1.tlMessageId)
      rw [h.removed, map_append]
      rfl
    · show s.call.sentIds = (s.call.marked ++ [(row, newId)]).filterMap Prod.snd ++ []
      rw [hsent, append_nil, filterMap_append]
      cases newId <;> rfl
  · cases hs

theorem Inv.release (h : Inv s) (hs : step s .release = some s') :
    Inv s' ∧ ∃ row, s'.call.released = [row] ∧
      (s'.store.status row.id = some .pending ∨ s'.store.status row.id = some .failed) := by
  dsimp only [step] at hs
  split at hs
  · rename_i row i error hphase
    obtain ⟨store, hstore, rfl⟩ := map_eq_some_iff.1 hs
    obtain ⟨hnumbered, hpresent⟩ := rows_step h.numbered hstore
    have hreleased := h.released_nil (fun _ heq => (by rw [hphase] at heq; cases heq))
    obtain ⟨operation, hget, hserves, hholding⟩ := h.serves row i (by rw [hphase]; rfl) (by rw [hphase]; rfl)
    rw [hphase] at hholding
    have hrow := h.present row (.inr (by rw [hphase]; rfl))
    have haccounted := h.accounted
    have hsent := h.sent
    rw [hphase] at haccounted hsent
    refine ⟨⟨hnumbered, fun row' hmem => ?_, fun _ _ h => (by cases h), ?_, h.removed, hsent, fun _ => ⟨error, rfl⟩,
      fun _ h => (by cases h)⟩, row, ?_, ?_⟩
    · rcases hmem with hmem | hmem
      · exact hpresent row'.id (h.present row' (.inl hmem))
      · cases hmem
    · show s.call.claimed = s.call.marked.map Prod.fst ++ [] ++ (s.call.released ++ [row])
      rw [haccounted, hreleased, append_nil, append_nil, nil_append]
      rfl
    · show s.call.released ++ [row] = [row]
      rw [hreleased, nil_append]
    · have hcomplete : s.store.complete i (ScheduledMessageStore.released (decide (row.status = .failed)) (some error))
          (fun _ => []) = some store := hstore
      have hchange : ∀ state, (ScheduledMessageStore.released (decide (row.status = .failed)) (some error) state).status =
          .ofParked (decide (row.status = .failed)) := fun _ => rfl
      have hstatus := status_complete hget hserves (hholding (cons_ne_nil _ _)) hchange hcomplete hrow
      show store.status row.id = some .pending ∨ store.status row.id = some .failed
      rw [hstatus]
      cases decide (row.status = .failed) with
      | true  => exact .inr rfl
      | false => exact .inl rfl
  · cases hs

theorem Inv.finish (h : Inv s) (hs : step s .finish = some s') : Inv s' := by
  dsimp only [step] at hs
  split at hs
  · rename_i hphase hrows
    cases hs
    have hreleased := h.released_nil (fun _ heq => (by rw [hphase] at heq; cases heq))
    have haccounted := h.accounted
    have hsent := h.sent
    rw [hphase] at haccounted hsent
    refine ⟨h.numbered, fun row' hmem => ?_, fun _ _ h => (by cases h), haccounted, h.removed, hsent,
      fun hne => absurd hreleased hne, fun updates heq => ?_⟩
    · rcases hmem with hmem | hmem
      · exact h.present row' (.inl hmem)
      · cases hmem
    · cases heq
      rfl
  · cases hs

variable {e : Event}

/-- **A step keeps the accounts of the call.** -/
theorem Inv.step (h : Inv s) (hs : step s e = some s') : Inv s' := by
  cases e with
  | other event =>
    dsimp only [ScheduledSendNow.step] at hs
    split at hs
    · rename_i hforeign
      obtain ⟨store, hstore, rfl⟩ := map_eq_some_iff.1 hs
      exact h.other hforeign hstore
    · cases hs
  | claimNow now        => exact h.claimNow hs
  | claimReturns        => exact h.claimReturns hs
  | sendReturns updates => exact h.sendReturns hs
  | sendThrows error    => exact h.sendThrows hs
  | markSent            => exact (h.markSent hs).1
  | release             => exact (h.release hs).1
  | finish              => exact h.finish hs

/-! ## What the call says -/

theorem Inv.announced (h : Inv s) {updates : List TlUpdate} (hphase : s.call.phase = .returned updates) :
    s.call.phase.announced = s.call.marked.map (fun m => m.1.tlMessageId) := by
  have hsent : ∀ l : List SentUpdate, (l.map TlUpdate.sent).flatMap deleted = [] := by
    intro l
    induction l with
    | nil         => rfl
    | cons u l ih => rw [map_cons, flatMap_cons, ih]; rfl
  rw [hphase, Phase.announced, h.returned updates hphase, flatMap_append, hsent, ← h.removed]
  exact append_nil _

/-- **A call that ended names what it sent unless it was rejected after it had sent something.** -/
theorem Inv.announces_iff (h : Inv s) (hended : s.call.phase.ended = true) :
    Announces s ↔ ((∃ error, s.call.phase = .rejected error) → s.call.marked = []) := by
  cases hphase : s.call.phase with
  | returned updates =>
    refine ⟨fun _ hrejected => ?_, fun _ _ m hm => ?_⟩
    · obtain ⟨error, heq⟩ := hrejected
      cases heq
    · rw [h.announced hphase]
      exact mem_map_of_mem hm
  | rejected error   =>
    refine ⟨fun hannounces _ => ?_, fun hnone _ m hm => ?_⟩
    · cases hmarked : s.call.marked with
      | nil      => rfl
      | cons m l =>
        have hmem := hannounces hended m (hmarked ▸ mem_cons_self)
        rw [hphase] at hmem
        cases hmem
    · rw [hnone ⟨error, rfl⟩] at hm
      cases hm
  | _                =>
    rw [hphase] at hended
    cases hended

theorem map_snd_of_length : ∀ {marked : List (ScheduledRow × Option Int)},
    (marked.filterMap Prod.snd).length = marked.length → marked.map Prod.snd = (marked.filterMap Prod.snd).map some
  | [],              _ => rfl
  | (row, none) :: l,    h => by
    have hle := length_filterMap_le Prod.snd l
    have hlength : (l.filterMap Prod.snd).length = l.length + 1 := h
    omega
  | (row, some id) :: l, h => by
    have hlength : (l.filterMap Prod.snd).length + 1 = l.length + 1 := h
    show some id :: l.map Prod.snd = some id :: (l.filterMap Prod.snd).map some
    rw [map_snd_of_length (Nat.succ.inj hlength)]

theorem Inv.aligned (h : Inv s) {updates : List TlUpdate} (hphase : s.call.phase = .returned updates) {peer : String}
    {messages ids : List Int} (hmem : .updateDeleteScheduledMessages peer messages (some ids) ∈ updates) :
    messages = s.call.marked.map (fun m => m.1.tlMessageId) ∧ ids.map some = s.call.marked.map Prod.snd := by
  rw [h.returned updates hphase] at hmem
  rcases mem_append.1 hmem with hmem | hmem
  · obtain ⟨_, _, heq⟩ := mem_map.1 hmem
    cases heq
  · have heq := mem_singleton.1 hmem
    injection heq with _ hmessages hids
    have hsent := h.sent
    rw [hphase] at hsent
    have hsent : s.call.sentIds = s.call.marked.filterMap Prod.snd := hsent.trans (append_nil _)
    unfold sentMessages at hids
    split at hids
    · rename_i hboth
      cases hids
      refine ⟨hmessages.trans h.removed, ?_⟩
      rw [hsent]
      refine (map_snd_of_length ?_).symm
      have hlength := hboth.2
      rw [hsent, h.removed, length_map] at hlength
      exact hlength
    · cases hids

/-! ## Runs -/

def Phase.fails : Phase → Bool
  | .threw _ _ _ => true
  | .rejected _  => true
  | _            => false

inductive Moves : Event → Phase → Phase → Prop
  | other (event : ScheduledStoreEvent) (phase : Phase) : Moves (.other event) phase phase
  | claimNow (now : Int) (row : ScheduledRow) (i : Nat) : Moves (.claimNow now) .looping (.claiming row i)
  | claimed (row : ScheduledRow) (i : Nat) : Moves .claimReturns (.claiming row i) (.sending row i)
  | skipped (row : ScheduledRow) (i : Nat) : Moves .claimReturns (.claiming row i) .looping
  | sendReturns (updates : List SentUpdate) (row : ScheduledRow) (i : Nat) (newId : Option Int) :
    Moves (.sendReturns updates) (.sending row i) (.sent row i newId)
  | sendThrows (error : String) (row : ScheduledRow) (i : Nat) :
    Moves (.sendThrows error) (.sending row i) (.threw row i error)
  | markSent (row : ScheduledRow) (i : Nat) (newId : Option Int) : Moves .markSent (.sent row i newId) .looping
  | release (row : ScheduledRow) (i : Nat) (error : String) : Moves .release (.threw row i error) (.rejected error)
  | finish (updates : List TlUpdate) : Moves .finish .looping (.returned updates)

/-- **How the call moves at a step**; only marking adds a marked row. -/
theorem moves_step (hs : step s e = some s') :
    Moves e s.call.phase s'.call.phase ∧ (e ≠ .markSent → s'.call.marked = s.call.marked) := by
  cases e with
  | other event =>
    dsimp only [step] at hs
    split at hs
    · obtain ⟨store, _, rfl⟩ := map_eq_some_iff.1 hs
      exact ⟨.other event _, fun _ => rfl⟩
    · cases hs
  | claimNow now =>
    dsimp only [step] at hs
    split at hs
    · rename_i hphase _
      obtain ⟨store, _, rfl⟩ := map_eq_some_iff.1 hs
      rw [hphase]
      exact ⟨.claimNow now _ _, fun _ => rfl⟩
    · cases hs
  | claimReturns =>
    dsimp only [step] at hs
    split at hs
    · rename_i hphase
      rw [hphase]
      split at hs
      · cases hs
        exact ⟨.claimed _ _, fun _ => rfl⟩
      · cases hs
        exact ⟨.skipped _ _, fun _ => rfl⟩
      · cases hs
    · cases hs
  | sendReturns updates =>
    dsimp only [step] at hs
    split at hs
    · rename_i hphase
      cases hs
      rw [hphase]
      exact ⟨.sendReturns updates _ _ _, fun _ => rfl⟩
    · cases hs
  | sendThrows error =>
    dsimp only [step] at hs
    split at hs
    · rename_i hphase
      cases hs
      rw [hphase]
      exact ⟨.sendThrows error _ _, fun _ => rfl⟩
    · cases hs
  | markSent =>
    dsimp only [step] at hs
    split at hs
    · rename_i hphase
      obtain ⟨store, _, rfl⟩ := map_eq_some_iff.1 hs
      rw [hphase]
      exact ⟨.markSent _ _ _, fun hne => absurd rfl hne⟩
    · cases hs
  | release =>
    dsimp only [step] at hs
    split at hs
    · rename_i hphase
      obtain ⟨store, _, rfl⟩ := map_eq_some_iff.1 hs
      rw [hphase]
      exact ⟨.release _ _ _, fun _ => rfl⟩
    · cases hs
  | finish =>
    dsimp only [step] at hs
    split at hs
    · rename_i hphase _
      cases hs
      rw [hphase]
      exact ⟨.finish _, fun _ => rfl⟩
    · cases hs

variable {phase phase' : Phase}

theorem Moves.fails (h : Moves e phase phase') (hfails : phase'.fails = true) :
    phase.fails = true ∨ ∃ error, e = .sendThrows error := by
  cases h with
  | other event             => exact .inl hfails
  | sendThrows error row i  => exact .inr ⟨error, rfl⟩
  | release row i error     => exact .inl rfl
  | _                       => cases hfails

theorem Moves.throws (h : Moves (.sendThrows error) phase phase') :
    phase'.fails = true := by
  cases h
  rfl

theorem Moves.stays_failing (h : Moves e phase phase') (hfails : phase.fails = true) :
    phase'.fails = true ∧ e ≠ .markSent := by
  cases h with
  | other event         => exact ⟨hfails, fun heq => (by cases heq)⟩
  | release row i error => exact ⟨rfl, fun heq => (by cases heq)⟩
  | _                   => cases hfails

theorem Moves.rejected (h : Moves e phase phase')
    (hrejected : phase' = .rejected error) (hbefore : phase.ended = false) : e = .release := by
  cases h with
  | other event         =>
    rw [hrejected] at hbefore
    cases hbefore
  | release row i error => rfl
  | _                   => cases hrejected

theorem Inv.announces (h : Inv s) (hfails : s.call.phase.fails = true → s.call.marked = []) : Announces s := by
  intro hended
  refine (h.announces_iff hended).2 (fun hrejected => hfails ?_) hended
  obtain ⟨error, heq⟩ := hrejected
  rw [heq]
  rfl

/-- **What holds of a call in every run.** -/
structure SendNowLaws (start : State) : Prop where
  /-- Where no send fails after a row was marked sent, every row that was marked is named. -/
  announced : ∀ s, Runs.Reachable step FailsFirst start s → Announces s
  /-- Where one does, the call ends without naming them. -/
  unannounced : ∀ s s' e, Runs.Reachable step (fun _ _ => True) start s → step s e = some s' → ¬ FailsFirst s e →
    ∀ s'', Runs.Reachable step (fun _ _ => True) s' s'' → s''.call.phase.ended = true → ¬ Announces s''
  /-- The rows that are kept as marked got the status sent. -/
  marked : ∀ s s', Runs.Reachable step (fun _ _ => True) start s → step s .markSent = some s' →
    ∃ m, s'.call.marked = s.call.marked ++ [m] ∧ s'.store.status m.1.id = some .sent
  /-- As the call ends, a row that it claimed and did not send is pending or failed. -/
  putBack : ∀ s s' e, Runs.Reachable step (fun _ _ => True) start s → step s e = some s' →
    s.call.phase.ended = false → s'.call.phase.ended = true → ∀ row ∈ s'.call.claimed,
      row ∈ s'.call.marked.map Prod.fst ∨ s'.store.status row.id = some .pending ∨ s'.store.status row.id = some .failed
  /-- The new ids that are told are those of the rows that are named, place by place. -/
  aligned : ∀ s updates, Runs.Reachable step (fun _ _ => True) start s → s.call.phase = .returned updates →
    ∀ peer messages ids, .updateDeleteScheduledMessages peer messages (some ids) ∈ updates →
      messages = s.call.marked.map (fun m => m.1.tlMessageId) ∧ ids.map some = s.call.marked.map Prod.snd

theorem Inv.reachable {start : State} (h : Inv start) {ok : State → Event → Prop}
    (hr : Runs.Reachable ScheduledSendNow.step ok start s) : Inv s :=
  hr.invariant h (fun _ _ _ _ h _ hs => h.step hs)

theorem fails_first {start : State} (hstart : start.call.phase = .looping)
    (hr : Runs.Reachable step FailsFirst start s) : s.call.phase.fails = true → s.call.marked = [] := by
  refine hr.invariant (I := fun s => s.call.phase.fails = true → s.call.marked = []) (fun hfails => ?_)
    (fun s e s' _ hnone hok hs hfails => ?_)
  · rw [hstart] at hfails
    cases hfails
  · obtain ⟨hmoves, hkept⟩ := moves_step hs
    rcases hmoves.fails hfails with hbefore | ⟨error, rfl⟩
    · rw [hkept (hmoves.stays_failing hbefore).2]
      exact hnone hbefore
    · rw [hkept (fun heq => (by cases heq))]
      exact hok error rfl

theorem fails_after (hs : step s e = some s') (hnot : ¬ FailsFirst s e) {s'' : State}
    (hr : Runs.Reachable step (fun _ _ => True) s' s'') : s''.call.phase.fails = true ∧ s''.call.marked ≠ [] := by
  refine hr.invariant (I := fun s => s.call.phase.fails = true ∧ s.call.marked ≠ []) ?_ (fun s e s' _ hboth _ hs => ?_)
  · obtain ⟨hmoves, hkept⟩ := moves_step hs
    obtain ⟨error, hthrows⟩ := not_forall.1 hnot
    obtain ⟨rfl, hmarked⟩ := Classical.not_imp.1 hthrows
    rw [hkept (fun heq => (by cases heq))]
    exact ⟨hmoves.throws, hmarked⟩
  · obtain ⟨hmoves, hkept⟩ := moves_step hs
    obtain ⟨hfails, hmark⟩ := hmoves.stays_failing hboth.1
    rw [hkept hmark]
    exact ⟨hfails, hboth.2⟩

/-- **A row that was sent now is announced, or is put back**, unless a later send of the call fails. -/
theorem sendNowLaws (store : ScheduledMessageStore)
    (hstore : Runs.Reachable ScheduledMessageStore.step (fun _ _ => True) empty store)
    (platformSessionId conversation : String) (ids : List Int) (start : State)
    (hstart : sendScheduledMessages store platformSessionId conversation ids = .ok start) : SendNowLaws start := by
  have hrows : RowsNumbered store := hstore.invariant (I := RowsNumbered) (fun _ _ h => (by cases h))
    (fun _ _ _ _ h _ hs => (rows_step h hs).1)
  have h := Inv.start hrows hstart
  have hlooping : start.call.phase = .looping := by
    unfold sendScheduledMessages at hstart
    dsimp only at hstart
    split at hstart <;> cases hstart
    rfl
  refine ⟨fun s hr => (h.reachable hr).announces (fails_first hlooping hr), ?_, ?_, ?_, ?_⟩
  · intro s s' e hr hs hnot s'' hr' hended hannounces
    have hlast := ((h.reachable hr).step hs).reachable hr'
    obtain ⟨hfails, hmarked⟩ := fails_after hs hnot hr'
    refine hmarked ((hlast.announces_iff hended).1 hannounces ?_)
    cases hphase : s''.call.phase with
    | rejected error => exact ⟨error, rfl⟩
    | returned _     =>
      rw [hphase] at hfails
      cases hfails
    | _              =>
      rw [hphase] at hended
      cases hended
  · exact fun s s' hr hs => ((h.reachable hr).markSent hs).2
  · intro s s' e hr hs hbefore hended row hrow
    have hnow := h.reachable hr
    have hnext := hnow.step hs
    have haccounted := hnext.accounted
    cases hphase : s'.call.phase with
    | returned updates =>
      have hreleased := hnext.released_nil (fun _ heq => (by rw [hphase] at heq; cases heq))
      rw [hphase, hreleased] at haccounted
      rw [haccounted] at hrow
      exact .inl (by simpa [Phase.held] using hrow)
    | rejected error   =>
      have he := (moves_step hs).1.rejected hphase hbefore
      subst he
      obtain ⟨_, row', hreleased, hstatus⟩ := hnow.release hs
      rw [hphase, hreleased] at haccounted
      rw [haccounted] at hrow
      rcases mem_append.1 hrow with hrow | hrow
      · exact .inl (by simpa [Phase.held] using hrow)
      · rw [mem_singleton.1 hrow]
        exact .inr hstatus
    | _                =>
      rw [hphase] at hended
      cases hended
  · exact fun s updates hr hphase peer messages ids hmem => (h.reachable hr).aligned hphase hmem

def scheduled : ScheduledMessageStore :=
  ((ScheduledMessageStore.empty.step (.create "session" "conversation" 7 100)).bind
    (fun s => s.step (.create "session" "conversation" 8 200))).getD empty

theorem scheduled_reachable : Runs.Reachable ScheduledMessageStore.step (fun _ _ => True) empty scheduled :=
  Runs.reachable_of_run (fun _ _ _ => trivial) .init
    (show Runs.run ScheduledMessageStore.step empty [.create "session" "conversation" 7 100,
      .create "session" "conversation" 8 200] = some scheduled from rfl)

def both : State :=
  match sendScheduledMessages scheduled "session" "conversation" [7, 8] with
  | .ok s    => s
  | .error _ => ⟨empty, ⟨"", "", [], .looping, [], [], [], [], [], []⟩⟩

theorem sendNowLaws_both : SendNowLaws both :=
  sendNowLaws scheduled scheduled_reachable "session" "conversation" [7, 8] both (by rfl)

def secondFails : List Event :=
  [.claimNow 50, .other (.advance 0), .other (.advance 0), .claimReturns, .sendReturns [.updateNewMessage 31], .markSent,
    .claimNow 51, .other (.advance 1), .other (.advance 1), .claimReturns, .sendThrows "FLOOD", .release]

/-- The first message is marked sent and the call names no row. -/
theorem second_unannounced :
    (Runs.run step both secondFails).map (fun s => (s.store.status 1, s.store.status 2, s.call.phase,
      s.call.marked.map (fun m => m.1.tlMessageId), s.call.phase.announced)) =
        some (some .sent, some .pending, .rejected "FLOOD", [7], []) := by
  decide

end ScheduledSendNow
end Crossgram
