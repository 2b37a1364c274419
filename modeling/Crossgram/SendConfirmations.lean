import Mathlib.Data.List.Pairwise
import Mathlib.Data.List.Perm.Subperm
/-!
# SendConfirmations — random ids answered by the updates of a send (packages/bridge/src/dialogs.ts, update-manager.ts)

A client tells its unsent messages apart by random ids.  The updates that a send returns pair them with the new
messages, by position: the update manager does so for what it publishes, the RPC for what it returns, and a forward
answers the ids that are left over with the cancelled id.  The users and chats of a reply are left out.
-/
namespace Crossgram
namespace SendConfirmations

open List

/-- A signed 64-bit number that the client drew. -/
abbrev RandomId := Int

structure TlMessage where
  id : Nat
  positive : 0 < id
  service : Bool := false
  replyTo : Option (Option Nat) := none

inductive TlUpdate
  | updateMessageID (id : Nat) (randomId : RandomId)
  | updateNewMessage (message : TlMessage)
  | updateNewChannelMessage (message : TlMessage)
  | updateNewScheduledMessage (message : TlMessage)
  | other (id : Nat)

structure RawUpdates where
  updates : List TlUpdate
  date : Int := 0
  seq : Int := 0

def cancelledMessageId : Nat := 0

/-! ## Pairing -/

def TlUpdate.messageId : TlUpdate → Option (RandomId × Nat)
  | .updateMessageID id randomId => some (randomId, id)
  | _                            => none

def TlUpdate.newMessage : TlUpdate → Option TlMessage
  | .updateNewMessage message        => some message
  | .updateNewChannelMessage message => some message
  | _                                => none

/-- `replyTopMessageId`: the id of a topic is positive. -/
def replyTopMessageId (topMsgId : Option Nat) : Option Nat := topMsgId.filter (fun id => decide (0 < id))

def TlMessage.withReplyToTopId (message : TlMessage) (replyToTopId : Nat) : TlMessage :=
  if message.service then message else { message with replyTo := message.replyTo.map (fun _ => some replyToTopId) }

def withReplyToTopId (replyToTopId : Option Nat) (update : TlUpdate) : TlUpdate :=
  match replyToTopId, update with
  | some top, .updateNewMessage message        => .updateNewMessage (message.withReplyToTopId top)
  | some top, .updateNewChannelMessage message => .updateNewChannelMessage (message.withReplyToTopId top)
  | _,        _                                => update

def pairWith (known : RandomId → Bool) (replyToTopId : Option Nat) : List RandomId → List TlUpdate → List TlUpdate
  | _,         []                => []
  | randomIds, update :: updates =>
    match update.newMessage, randomIds with
    | some message, randomId :: randomIds =>
      if known randomId then withReplyToTopId replyToTopId update :: pairWith known replyToTopId randomIds updates
      else .updateMessageID message.id randomId :: withReplyToTopId replyToTopId update ::
        pairWith known replyToTopId randomIds updates
    | _,            _                     =>
      withReplyToTopId replyToTopId update :: pairWith known replyToTopId randomIds updates

/-- `withSendReconciliation` of the update manager. -/
def withSendReconciliation (payload : RawUpdates) (randomIds : List RandomId) (replyToTopId : Option Nat) : RawUpdates :=
  { payload with updates := pairWith (fun _ => false) replyToTopId randomIds payload.updates }

def messageIds (updates : List TlUpdate) : List (RandomId × Nat) := updates.filterMap TlUpdate.messageId

/-- `_withMessageIds` of the RPC; a reply has no place in the sequence of updates. -/
def withMessageIds (payload : RawUpdates) (randomIds : List RandomId) (replyToTopId : Option Nat) : RawUpdates :=
  let confirmed := (messageIds payload.updates).map Prod.fst
  { payload with
    updates := pairWith (fun randomId => decide (randomId ∈ confirmed)) replyToTopId randomIds payload.updates
    seq := 0 }

def newMessages (updates : List TlUpdate) : List TlMessage := updates.filterMap TlUpdate.newMessage

/-- `_confirmForwardRandomIds` -/
def confirmForwardRandomIds (payload : RawUpdates) (randomIds : List RandomId) : RawUpdates :=
  let projectedCount := (newMessages payload.updates).length
  let confirmed := withMessageIds payload (randomIds.take projectedCount) none
  { confirmed with
    updates := confirmed.updates ++ (randomIds.drop projectedCount).map (.updateMessageID cancelledMessageId) }

/-! ## Sends -/

structure Publication where
  payload : RawUpdates
  unpaired : messageIds payload.updates = []

inductive Outcome
  | published (publication : Publication)
  | stored (channel : Bool) (projection : List TlMessage) (date : Int)

def newUpdate (channel : Bool) (message : TlMessage) : TlUpdate :=
  if channel then .updateNewChannelMessage message else .updateNewMessage message

/-- `_publishLocalMessage`: the update manager pairs the random ids it is given. -/
def publishLocalMessage (publication : Publication) (randomIds : List RandomId) (replyToTopId : Option Nat) : RawUpdates :=
  if randomIds ≠ [] ∨ replyToTopId.isSome then withSendReconciliation publication.payload randomIds replyToTopId
  else publication.payload

def projectParts (channel : Bool) (replyToTopId : Option Nat) : List RandomId → List TlMessage → List TlUpdate
  | _,                     []              => []
  | [],                    part :: parts =>
    withReplyToTopId replyToTopId (newUpdate channel part) :: projectParts channel replyToTopId [] parts
  | randomId :: randomIds, part :: parts =>
    .updateMessageID part.id randomId :: withReplyToTopId replyToTopId (newUpdate channel part) ::
      projectParts channel replyToTopId randomIds parts

/-- `_sendRichContent` -/
def sendRichContent (randomIds : List RandomId) (topMsgId : Option Nat) : Outcome → RawUpdates
  | .published publication          =>
    let published := publishLocalMessage publication randomIds (replyTopMessageId topMsgId)
    withMessageIds published randomIds (replyTopMessageId topMsgId)
  | .stored channel projection date =>
    { updates := projectParts channel (replyTopMessageId topMsgId) randomIds projection, date := date }

/-- `_sendMessage` of plain text; without a stored part the message gets the id `local`. -/
def sendMessage (randomId : RandomId) (topMsgId : Option Nat) (localMessage : TlMessage) :
    Outcome → Except String RawUpdates
  | .published publication          =>
    let published := publishLocalMessage publication [randomId] (replyTopMessageId topMsgId)
    if newMessages published.updates = [] then .error "MESSAGE_UPDATE_NOT_FOUND"
    else .ok (withMessageIds published [randomId] (replyTopMessageId topMsgId))
  | .stored channel projection date =>
    let message := projection.headD localMessage
    .ok { updates := [.updateMessageID message.id randomId,
            withReplyToTopId (replyTopMessageId topMsgId) (newUpdate channel message)], date := date }

/-- `_scheduleTextMessage` -/
def scheduleTextMessage (randomId : RandomId) (message : TlMessage) (date : Int) : RawUpdates :=
  { updates := [.updateMessageID message.id randomId, .updateNewScheduledMessage message], date := date }

def sendRichMessage (randomId : RandomId) (topMsgId : Option Nat) (outcome : Outcome) : RawUpdates :=
  sendRichContent [randomId] topMsgId outcome

def sendMedia (randomId : RandomId) (topMsgId : Option Nat) (outcome : Outcome) : RawUpdates :=
  sendRichContent [randomId] topMsgId outcome

def sendMultiMedia (randomIds : List RandomId) (topMsgId : Option Nat) (outcome : Outcome) : RawUpdates :=
  sendRichContent randomIds topMsgId outcome

def latestDate : List RawUpdates → Int
  | []                  => 0
  | payload :: payloads => payloads.foldl (fun date payload => max date payload.date) payload.date

def mergeForwardUpdates (payloads : List RawUpdates) : RawUpdates where
  updates := payloads.flatMap RawUpdates.updates
  date    := latestDate payloads
  seq     := 0

def publishedPayloads (outcomes : List Outcome) : List RawUpdates :=
  outcomes.filterMap (fun outcome => match outcome with
    | .published publication => some (publishLocalMessage publication [] none)
    | .stored _ _ _          => none)

def projections (outcomes : List Outcome) : List TlMessage :=
  outcomes.flatMap (fun outcome => match outcome with
    | .published _           => []
    | .stored _ projection _ => projection)

/-- `forwardMessages` for what the platform made of the messages; the stored parts come last. -/
def forwardMessages (randomIds : List RandomId) (channel : Bool) (now : Int) (outcomes : List Outcome) : RawUpdates :=
  let stored : RawUpdates := { updates := (projections outcomes).map (newUpdate channel), date := now }
  let payloads := publishedPayloads outcomes ++ (if projections outcomes = [] then [] else [stored])
  let payload : RawUpdates := if payloads = [] then { updates := [], date := now } else mergeForwardUpdates payloads
  confirmForwardRandomIds payload randomIds

/-- `_forwardToSystemPeer` -/
def forwardToSystemPeer (randomIds : List RandomId) : Outcome → RawUpdates
  | .published publication    => confirmForwardRandomIds (publishLocalMessage publication [] none) randomIds
  | .stored _ projection date =>
    confirmForwardRandomIds { updates := projection.map .updateNewMessage, date := date } randomIds

/-- A call that succeeds once the platform has answered. -/
inductive SendCall
  | sendMessage (randomId : RandomId) (topMsgId : Option Nat) (localMessage : TlMessage) (outcome : Outcome)
  | scheduleTextMessage (randomId : RandomId) (message : TlMessage) (date : Int)
  | sendRichMessage (randomId : RandomId) (topMsgId : Option Nat) (outcome : Outcome)
  | sendMedia (randomId : RandomId) (topMsgId : Option Nat) (outcome : Outcome)
  | sendMultiMedia (randomIds : List RandomId) (topMsgId : Option Nat) (outcome : Outcome)
  | forwardMessages (randomIds : List RandomId) (channel : Bool) (now : Int) (outcomes : List Outcome)
  | forwardToSystemPeer (randomIds : List RandomId) (outcome : Outcome)

namespace SendCall

def randomIds : SendCall → List RandomId
  | sendMessage randomId _ _ _        => [randomId]
  | scheduleTextMessage randomId _ _  => [randomId]
  | sendRichMessage randomId _ _      => [randomId]
  | sendMedia randomId _ _            => [randomId]
  | sendMultiMedia randomIds _ _      => randomIds
  | forwardMessages randomIds _ _ _   => randomIds
  | forwardToSystemPeer randomIds _   => randomIds

def result : SendCall → Except String RawUpdates
  | sendMessage randomId topMsgId localMessage outcome =>
    SendConfirmations.sendMessage randomId topMsgId localMessage outcome
  | scheduleTextMessage randomId message date          => .ok (SendConfirmations.scheduleTextMessage randomId message date)
  | sendRichMessage randomId topMsgId outcome          => .ok (SendConfirmations.sendRichMessage randomId topMsgId outcome)
  | sendMedia randomId topMsgId outcome                => .ok (SendConfirmations.sendMedia randomId topMsgId outcome)
  | sendMultiMedia randomIds topMsgId outcome          => .ok (SendConfirmations.sendMultiMedia randomIds topMsgId outcome)
  | forwardMessages randomIds channel now outcomes     =>
    .ok (SendConfirmations.forwardMessages randomIds channel now outcomes)
  | forwardToSystemPeer randomIds outcome              => .ok (SendConfirmations.forwardToSystemPeer randomIds outcome)

end SendCall

def newIds (updates : List TlUpdate) : List Nat := (newMessages updates).map TlMessage.id

def Outcome.newIds : Outcome → List Nat
  | .published publication => SendConfirmations.newIds publication.payload.updates
  | .stored _ projection _ => projection.map TlMessage.id

def SendCall.newIds : SendCall → List Nat
  | .sendMessage _ _ localMessage (.stored _ projection _) => [(projection.headD localMessage).id]
  | .sendMessage _ _ _ outcome                             => outcome.newIds
  | .scheduleTextMessage _ message _                       => [message.id]
  | .sendRichMessage _ _ outcome                           => outcome.newIds
  | .sendMedia _ _ outcome                                 => outcome.newIds
  | .sendMultiMedia _ _ outcome                            => outcome.newIds
  | .forwardMessages _ _ _ outcomes                        =>
    SendConfirmations.newIds ((publishedPayloads outcomes).flatMap RawUpdates.updates) ++
      (projections outcomes).map TlMessage.id
  | .forwardToSystemPeer _ outcome                         => outcome.newIds

def SendCall.Enough : SendCall → Prop
  | .sendRichMessage _ _ outcome        => 1 ≤ outcome.newIds.length
  | .sendMedia _ _ outcome              => 1 ≤ outcome.newIds.length
  | .sendMultiMedia randomIds _ outcome => randomIds.length ≤ outcome.newIds.length
  | _                                   => True

/-! ## What is answered -/

def TlUpdate.brings : TlUpdate → Option Nat
  | .updateNewMessage message          => some message.id
  | .updateNewChannelMessage message   => some message.id
  | .updateNewScheduledMessage message => some message.id
  | _                                  => none

structure Answered (randomIds : List RandomId) (updates : List TlUpdate) : Prop where
  once : ∀ randomId ∈ randomIds, ∃ id, (messageIds updates).filter (fun p => decide (p.1 = randomId)) = [(randomId, id)] ∧
    (id = cancelledMessageId ∨ id ∈ updates.filterMap TlUpdate.brings)
  distinct : ∀ randomId ∈ randomIds, ∀ randomId' ∈ randomIds, ∀ id, (randomId, id) ∈ messageIds updates →
    (randomId', id) ∈ messageIds updates → id ≠ cancelledMessageId → randomId = randomId'

/-! ## Updates with pairs -/

@[simp] theorem messageIds_append (l r : List TlUpdate) : messageIds (l ++ r) = messageIds l ++ messageIds r :=
  filterMap_append

@[simp] theorem newIds_append (l r : List TlUpdate) : newIds (l ++ r) = newIds l ++ newIds r := by
  unfold newIds newMessages
  rw [filterMap_append, map_append]

theorem withReplyToTopId_id (message : TlMessage) (top : Nat) : (message.withReplyToTopId top).id = message.id := by
  unfold TlMessage.withReplyToTopId
  split <;> rfl

theorem withReplyToTopId_keeps (top : Option Nat) (update : TlUpdate) :
    (withReplyToTopId top update).messageId = update.messageId ∧
      (withReplyToTopId top update).newMessage.map TlMessage.id = update.newMessage.map TlMessage.id ∧
      (withReplyToTopId top update).brings = update.brings := by
  cases top with
  | none     => exact ⟨rfl, rfl, rfl⟩
  | some top =>
    cases update with
    | updateNewMessage message        =>
      exact ⟨rfl, congrArg some (withReplyToTopId_id message top), congrArg some (withReplyToTopId_id message top)⟩
    | updateNewChannelMessage message =>
      exact ⟨rfl, congrArg some (withReplyToTopId_id message top), congrArg some (withReplyToTopId_id message top)⟩
    | _                               => exact ⟨rfl, rfl, rfl⟩

theorem newIds_cons (update : TlUpdate) (updates : List TlUpdate) :
    newIds (update :: updates) = (update.newMessage.map TlMessage.id).toList ++ newIds updates := by
  unfold newIds newMessages
  cases h : update.newMessage with
  | none         => rw [filterMap_cons_none h]; rfl
  | some message => rw [filterMap_cons_some h]; rfl

theorem messageIds_cons (update : TlUpdate) (updates : List TlUpdate) :
    messageIds (update :: updates) = update.messageId.toList ++ messageIds updates := by
  unfold messageIds
  cases h : update.messageId with
  | none      => rw [filterMap_cons_none h]; rfl
  | some pair => rw [filterMap_cons_some h]; rfl

theorem brings_cons (update : TlUpdate) (updates : List TlUpdate) :
    (update :: updates).filterMap TlUpdate.brings = update.brings.toList ++ updates.filterMap TlUpdate.brings := by
  cases h : update.brings with
  | none    => rw [filterMap_cons_none h]; rfl
  | some id => rw [filterMap_cons_some h]; rfl

theorem messageId_of_newMessage {update : TlUpdate} {message : TlMessage} (h : update.newMessage = some message) :
    update.messageId = none ∧ update.brings = some message.id := by
  cases update with
  | updateNewMessage message        => cases h; exact ⟨rfl, rfl⟩
  | updateNewChannelMessage message => cases h; exact ⟨rfl, rfl⟩
  | _                               => cases h

variable {id : Nat}

theorem mem_brings : ∀ {updates : List TlUpdate}, id ∈ newIds updates → id ∈ updates.filterMap TlUpdate.brings
  | [],                h => absurd h not_mem_nil
  | update :: updates, h => by
    rw [brings_cons]
    rw [newIds_cons] at h
    rcases mem_append.1 h with h | h
    · refine mem_append_left _ ?_
      cases hnew : update.newMessage with
      | none         =>
        rw [hnew] at h
        cases h
      | some message =>
        rw [hnew] at h
        rw [(messageId_of_newMessage hnew).2]
        exact h
    · exact mem_append_right _ (mem_brings h)

/-! ## Pairs by position -/

variable {α β : Type}

theorem map_fst_zip : ∀ (l : List α) (r : List β), (l.zip r).map Prod.fst = l.take r.length
  | [],     r      => by rw [zip_nil_left, take_nil]; rfl
  | _ :: _, []     => rfl
  | a :: l, _ :: r => congrArg (a :: ·) (map_fst_zip l r)

theorem map_snd_zip : ∀ (l : List α) (r : List β), (l.zip r).map Prod.snd = r.take l.length
  | [],     _      => rfl
  | _ :: l, []     => by rw [zip_nil_right, take_nil]; rfl
  | _ :: l, b :: r => congrArg (b :: ·) (map_snd_zip l r)

theorem zip_take : ∀ (l : List α) (r : List β), (l.take r.length).zip r = l.zip r
  | [],     _      => by rw [take_nil]
  | _ :: _, []     => rfl
  | a :: l, b :: r => congrArg ((a, b) :: ·) (zip_take l r)

theorem zip_filled (b : β) : ∀ (l : List α) (r : List β) {n : Nat}, l.length ≤ n →
    l.zip (r ++ List.replicate n b) = l.zip r ++ (l.drop r.length).map (fun a => (a, b))
  | [],     _,       _,     _ => by rw [zip_nil_left, zip_nil_left, drop_nil]; rfl
  | _ :: _, _,       0,     h => absurd h (Nat.not_succ_le_zero _)
  | a :: l, [],      n + 1, h => by
    have ih := zip_filled b l [] (Nat.le_of_succ_le_succ h)
    rw [nil_append, zip_nil_right, nil_append] at ih ⊢
    exact congrArg ((a, b) :: ·) ih
  | a :: l, b' :: r, n + 1, h =>
    congrArg ((a, b') :: ·) (zip_filled b l r (Nat.le_of_succ_le h))

section
variable {known : RandomId → Bool} {top : Option Nat}

theorem pairWith_nil : ∀ updates : List TlUpdate, pairWith known top [] updates = updates.map (withReplyToTopId top)
  | []                => rfl
  | update :: updates => by
    rw [pairWith, map_cons, pairWith_nil updates]
    intros
    simp_all

theorem pairWith_old {update : TlUpdate} (h : update.newMessage = none) (randomIds : List RandomId) (updates : List TlUpdate) :
    pairWith known top randomIds (update :: updates) =
      withReplyToTopId top update :: pairWith known top randomIds updates := by
  conv => lhs; unfold pairWith
  rw [h]

theorem pairWith_new {update : TlUpdate} {message : TlMessage} (h : update.newMessage = some message) (randomId : RandomId)
    (randomIds : List RandomId) (updates : List TlUpdate) :
    pairWith known top (randomId :: randomIds) (update :: updates) =
      (if known randomId then [] else [.updateMessageID message.id randomId]) ++
        withReplyToTopId top update :: pairWith known top randomIds updates := by
  conv => lhs; unfold pairWith
  rw [h]
  dsimp only
  split <;> rfl

theorem newIds_pairWith : ∀ (randomIds : List RandomId) (updates : List TlUpdate),
    newIds (pairWith known top randomIds updates) = newIds updates
  | _,                     []                => rfl
  | [],                    update :: updates => by
    have ih := newIds_pairWith [] updates
    rw [pairWith_nil] at ih ⊢
    rw [map_cons, newIds_cons, newIds_cons, (withReplyToTopId_keeps top update).2.1, ih]
  | randomId :: randomIds, update :: updates => by
    cases hnew : update.newMessage with
    | none         =>
      rw [pairWith_old hnew, newIds_cons, newIds_cons, (withReplyToTopId_keeps top update).2.1,
        newIds_pairWith (randomId :: randomIds) updates]
    | some message =>
      have hpair : newIds (if known randomId then [] else [.updateMessageID message.id randomId]) = [] := by
        split <;> rfl
      rw [pairWith_new hnew, newIds_append, hpair, nil_append, newIds_cons, newIds_cons,
        (withReplyToTopId_keeps top update).2.1, newIds_pairWith randomIds updates]

theorem messageIds_map_withReplyToTopId (updates : List TlUpdate) :
    messageIds (updates.map (withReplyToTopId top)) = messageIds updates := by
  unfold messageIds
  rw [filterMap_map]
  exact filterMap_congr (fun update _ => (withReplyToTopId_keeps top update).1)

/-- **Random ids are told with the new messages**, place by place, but for the known ones. -/
theorem messageIds_pairWith : ∀ (randomIds : List RandomId) (updates : List TlUpdate), messageIds updates = [] →
    messageIds (pairWith known top randomIds updates) =
      (randomIds.zip (newIds updates)).filter (fun p => !known p.1)
  | randomIds,             [],                _ => by
    rw [show newIds ([] : List TlUpdate) = [] from rfl, zip_nil_right]
    cases randomIds <;> rfl
  | [],                    update :: updates, h => by
    rw [pairWith_nil, messageIds_map_withReplyToTopId, h]
    rfl
  | randomId :: randomIds, update :: updates, h => by
    rw [messageIds_cons] at h
    obtain ⟨hupdate, hupdates⟩ := append_eq_nil_iff.1 h
    cases hnew : update.newMessage with
    | none         =>
      rw [pairWith_old hnew, messageIds_cons, newIds_cons, (withReplyToTopId_keeps top update).1, hupdate, hnew,
        messageIds_pairWith (randomId :: randomIds) updates hupdates]
      rfl
    | some message =>
      rw [pairWith_new hnew, messageIds_append, messageIds_cons, (withReplyToTopId_keeps top update).1, hupdate,
        messageIds_pairWith randomIds updates hupdates, newIds_cons, hnew]
      show _ = ((randomId, message.id) :: randomIds.zip (newIds updates)).filter (fun p => !known p.1)
      cases hknown : known randomId with
      | true  => rw [filter_cons_of_neg (by simp [hknown])]; rfl
      | false => rw [filter_cons_of_pos (by simp [hknown])]; rfl

theorem messageIds_pairWith_known : ∀ (randomIds : List RandomId) (updates : List TlUpdate),
    (∀ randomId ∈ randomIds.take (newIds updates).length, known randomId = true) →
      messageIds (pairWith known top randomIds updates) = messageIds updates
  | _,                     [],                _ => rfl
  | [],                    update :: updates, _ => by
    rw [pairWith_nil, messageIds_map_withReplyToTopId]
  | randomId :: randomIds, update :: updates, h => by
    rw [newIds_cons] at h
    cases hnew : update.newMessage with
    | none         =>
      rw [hnew] at h
      rw [pairWith_old hnew, messageIds_cons, messageIds_cons, (withReplyToTopId_keeps top update).1,
        messageIds_pairWith_known (randomId :: randomIds) updates h]
    | some message =>
      rw [hnew] at h
      have hhere : known randomId = true := h randomId mem_cons_self
      have hrest := messageIds_pairWith_known randomIds updates (fun r hr => h r (mem_cons_of_mem _ hr))
      rw [pairWith_new hnew, if_pos hhere, nil_append, messageIds_cons, messageIds_cons,
        (withReplyToTopId_keeps top update).1, hrest]

end

/-- **What a published message answers**: the RPC adds nothing to what the update manager has paired. -/
theorem messageIds_published (publication : Publication) (randomIds : List RandomId) (top : Option Nat) :
    messageIds (withMessageIds (publishLocalMessage publication randomIds top) randomIds top).updates =
        randomIds.zip (newIds publication.payload.updates) ∧
      newIds (withMessageIds (publishLocalMessage publication randomIds top) randomIds top).updates =
        newIds publication.payload.updates := by
  by_cases hnone : randomIds = []
  · subst hnone
    have hpublished : newIds (publishLocalMessage publication [] top).updates = newIds publication.payload.updates ∧
        messageIds (publishLocalMessage publication [] top).updates = [] := by
      unfold publishLocalMessage
      split
      · exact ⟨newIds_pairWith _ _, messageIds_pairWith _ _ publication.unpaired⟩
      · exact ⟨rfl, publication.unpaired⟩
    refine ⟨?_, (newIds_pairWith _ _).trans hpublished.1⟩
    refine (messageIds_pairWith_known [] _ (fun r hr => ?_)).trans hpublished.2
    rw [take_nil] at hr
    cases hr
  · have hpublish : publishLocalMessage publication randomIds top =
        withSendReconciliation publication.payload randomIds top := if_pos (.inl hnone)
    have hids : newIds (publishLocalMessage publication randomIds top).updates = newIds publication.payload.updates := by
      rw [hpublish]
      exact newIds_pairWith _ _
    have hpairs : messageIds (publishLocalMessage publication randomIds top).updates =
        randomIds.zip (newIds publication.payload.updates) := by
      rw [hpublish]
      refine (messageIds_pairWith _ _ publication.unpaired).trans ?_
      exact filter_eq_self.2 (fun _ _ => rfl)
    refine ⟨?_, (newIds_pairWith _ _).trans hids⟩
    refine (messageIds_pairWith_known _ _ (fun randomId hr => decide_eq_true ?_)).trans hpairs
    rw [hpairs, map_fst_zip]
    rw [hids] at hr
    exact hr

theorem messageIds_confirmForward {payload : RawUpdates} (hunpaired : messageIds payload.updates = [])
    (randomIds : List RandomId) :
    messageIds (confirmForwardRandomIds payload randomIds).updates =
        randomIds.zip (newIds payload.updates ++ List.replicate randomIds.length cancelledMessageId) ∧
      newIds (confirmForwardRandomIds payload randomIds).updates = newIds payload.updates := by
  have hlength : (newMessages payload.updates).length = (newIds payload.updates).length := by
    rw [newIds, length_map]
  have hleft : ∀ l : List RandomId, messageIds (l.map (.updateMessageID cancelledMessageId)) =
      l.map (fun randomId => (randomId, cancelledMessageId)) ∧ newIds (l.map (.updateMessageID cancelledMessageId)) = [] := by
    intro l
    induction l with
    | nil             => exact ⟨rfl, rfl⟩
    | cons randomId l ih =>
      rw [map_cons, messageIds_cons, newIds_cons, ih.1, ih.2]
      exact ⟨rfl, rfl⟩
  have hpairs : messageIds (withMessageIds payload (randomIds.take (newIds payload.updates).length) none).updates =
      randomIds.zip (newIds payload.updates) := by
    refine (messageIds_pairWith _ _ hunpaired).trans ?_
    rw [hunpaired, zip_take]
    exact filter_eq_self.2 (fun _ _ => rfl)
  unfold confirmForwardRandomIds
  dsimp only
  rw [hlength, messageIds_append, newIds_append, hpairs, (hleft _).1, (hleft _).2, append_nil,
    zip_filled cancelledMessageId randomIds _ (Nat.le_refl _)]
  exact ⟨rfl, newIds_pairWith _ _⟩

/-! ## When every random id is answered -/

theorem filter_zip {randomId : RandomId} : ∀ {l : List RandomId} {r : List Nat}, l.Nodup → l.length ≤ r.length →
    randomId ∈ l → ∃ id ∈ r, (l.zip r).filter (fun p => decide (p.1 = randomId)) = [(randomId, id)]
  | [],     _,       _, _, hmem => absurd hmem not_mem_nil
  | _ :: _, [],      _, h, _    => absurd h (Nat.not_succ_le_zero _)
  | a :: l, id :: r, h, hlength, hmem => by
    rw [zip_cons_cons]
    rw [nodup_cons] at h
    rcases mem_cons.1 hmem with rfl | hmem
    · have hnone : (l.zip r).filter (fun p => decide (p.1 = randomId)) = [] := by
        refine filter_eq_nil_iff.2 (fun p hp heq => h.1 ?_)
        have hfst := mem_map_of_mem (f := Prod.fst) hp
        rw [map_fst_zip, of_decide_eq_true heq] at hfst
        exact mem_of_mem_take hfst
      refine ⟨id, mem_cons_self, ?_⟩
      rw [filter_cons, if_pos (decide_eq_true rfl), hnone]
    · have hne : a ≠ randomId := fun heq => h.1 (heq ▸ hmem)
      obtain ⟨id', hid', hfilter⟩ := filter_zip h.2 (Nat.le_of_succ_le_succ hlength) hmem
      refine ⟨id', mem_cons_of_mem _ hid', ?_⟩
      rw [filter_cons, if_neg (fun heq => hne (of_decide_eq_true heq)), hfilter]

theorem distinct_iff {pairs : List (RandomId × Nat)} (h : (pairs.map Prod.fst).Nodup) :
    (∀ p ∈ pairs, ∀ q ∈ pairs, p.2 = q.2 → p.2 ≠ cancelledMessageId → p.1 = q.1) ↔
      ((pairs.map Prod.snd).filter (fun id => decide (id ≠ cancelledMessageId))).Nodup := by
  have hfst : pairs.Pairwise (fun p q => p.1 ≠ q.1) := pairwise_map.1 h
  have hnodup : ((pairs.map Prod.snd).filter (fun id => decide (id ≠ cancelledMessageId))).Nodup ↔
      pairs.Pairwise (fun p q => p.2 ≠ cancelledMessageId → q.2 ≠ cancelledMessageId → p.2 ≠ q.2) := by
    unfold List.Nodup
    rw [pairwise_filter, pairwise_map]
    simp only [decide_eq_true_eq]
  rw [hnodup]
  constructor
  · intro hdistinct
    refine List.Pairwise.imp_of_mem (fun {p q} hp hq hne hreal _ heq => ?_) hfst
    exact hne (hdistinct p hp q hq heq hreal)
  · intro hpairs p hp q hq heq hreal
    by_contra hne
    have hsymm : Std.Symm (fun p q : RandomId × Nat =>
        p.2 ≠ cancelledMessageId → q.2 ≠ cancelledMessageId → p.2 ≠ q.2) :=
      ⟨fun _ _ h hq hp heq => h hp hq heq.symm⟩
    exact hpairs.forall hp hq (fun heq => hne (congrArg Prod.fst heq)) hreal (heq ▸ hreal) heq

variable {randomIds : List RandomId}

/-- **Random ids that are paired by position**: each is answered once, and no two with one message, if and only if there
is an id for each and the real ones that are used are distinct. -/
theorem answered_iff_of_pairs {ids : List Nat} {updates : List TlUpdate}
    (hnodup : randomIds.Nodup) (hpairs : messageIds updates = randomIds.zip ids)
    (hshown : ∀ id ∈ ids, id = cancelledMessageId ∨ id ∈ updates.filterMap TlUpdate.brings) :
    Answered randomIds updates ↔ randomIds.length ≤ ids.length ∧
      ((ids.take randomIds.length).filter (fun id => decide (id ≠ cancelledMessageId))).Nodup := by
  have hfst : ((messageIds updates).map Prod.fst).Nodup := by
    rw [hpairs, map_fst_zip]
    exact hnodup.sublist (take_sublist _ _)
  have hmem : ∀ p ∈ messageIds updates, p.1 ∈ randomIds := by
    intro p hp
    rw [hpairs] at hp
    exact (of_mem_zip hp).1
  have hdistinct := distinct_iff hfst
  rw [hpairs, map_snd_zip, ← hpairs] at hdistinct
  constructor
  · intro h
    refine ⟨?_, hdistinct.1 (fun p hp q hq heq hreal => ?_)⟩
    · have hsub : randomIds ⊆ randomIds.take ids.length := by
        intro randomId hrandom
        obtain ⟨id, hid, _⟩ := h.once randomId hrandom
        have hin : (randomId, id) ∈ messageIds updates :=
          mem_of_mem_filter (hid ▸ mem_singleton_self (randomId, id))
        have hfirst := mem_map_of_mem (f := Prod.fst) hin
        rw [hpairs, map_fst_zip] at hfirst
        exact hfirst
      have hle := (hnodup.subperm hsub).length_le
      rw [length_take] at hle
      omega
    · exact h.distinct p.1 (hmem p hp) q.1 (hmem q hq) p.2 hp (heq ▸ hq) hreal
  · rintro ⟨hlength, hids⟩
    refine ⟨fun randomId hrandom => ?_, fun randomId _ randomId' _ id hid hid' hreal => ?_⟩
    · obtain ⟨id, hid, hfilter⟩ := filter_zip hnodup hlength hrandom
      exact ⟨id, by rw [hpairs, hfilter], hshown id hid⟩
    · exact hdistinct.2 hids (randomId, id) hid (randomId', id) hid' rfl hreal

/-! ## The calls -/

theorem newIds_positive {updates : List TlUpdate} (h : id ∈ newIds updates) : id ≠ cancelledMessageId := by
  obtain ⟨message, _, rfl⟩ := mem_map.1 h
  exact Nat.ne_of_gt message.positive

theorem Outcome.newIds_positive {outcome : Outcome} (h : id ∈ outcome.newIds) : id ≠ cancelledMessageId := by
  cases outcome with
  | published publication          => exact SendConfirmations.newIds_positive h
  | stored channel projection date =>
    obtain ⟨message, _, rfl⟩ := mem_map.1 h
    exact Nat.ne_of_gt message.positive

theorem newMessage_newUpdate (channel : Bool) (message : TlMessage) :
    (newUpdate channel message).newMessage = some message ∧ (newUpdate channel message).messageId = none := by
  unfold newUpdate
  split <;> exact ⟨rfl, rfl⟩

theorem ids_map_newUpdate (channel : Bool) : ∀ parts : List TlMessage,
    newIds (parts.map (newUpdate channel)) = parts.map TlMessage.id ∧ messageIds (parts.map (newUpdate channel)) = []
  | []            => ⟨rfl, rfl⟩
  | part :: parts => by
    obtain ⟨hnew, hid⟩ := newMessage_newUpdate channel part
    obtain ⟨hnews, hids⟩ := ids_map_newUpdate channel parts
    rw [map_cons, newIds_cons, messageIds_cons, hnew, hid, hnews, hids]
    exact ⟨rfl, rfl⟩

theorem ids_projectParts (channel : Bool) (top : Option Nat) : ∀ (randomIds : List RandomId) (parts : List TlMessage),
    messageIds (projectParts channel top randomIds parts) = randomIds.zip (parts.map TlMessage.id) ∧
      newIds (projectParts channel top randomIds parts) = parts.map TlMessage.id
  | randomIds,             []            => by
    rw [projectParts, map_nil, zip_nil_right]
    exact ⟨rfl, rfl⟩
  | [],                    part :: parts => by
    obtain ⟨hpairs, hnews⟩ := ids_projectParts channel top [] parts
    obtain ⟨hnew, hid⟩ := newMessage_newUpdate channel part
    rw [projectParts, messageIds_cons, newIds_cons, (withReplyToTopId_keeps top _).1, (withReplyToTopId_keeps top _).2.1,
      hpairs, hnews, hnew, hid]
    exact ⟨rfl, rfl⟩
  | randomId :: randomIds, part :: parts => by
    obtain ⟨hpairs, hnews⟩ := ids_projectParts channel top randomIds parts
    obtain ⟨hnew, hid⟩ := newMessage_newUpdate channel part
    rw [projectParts, messageIds_cons, messageIds_cons, newIds_cons, newIds_cons, (withReplyToTopId_keeps top _).1,
      (withReplyToTopId_keeps top _).2.1, hpairs, hnews, hnew, hid]
    exact ⟨rfl, rfl⟩

theorem ids_sendRichContent (randomIds : List RandomId) (topMsgId : Option Nat) (outcome : Outcome) :
    messageIds (sendRichContent randomIds topMsgId outcome).updates = randomIds.zip outcome.newIds ∧
      newIds (sendRichContent randomIds topMsgId outcome).updates = outcome.newIds := by
  cases outcome with
  | published publication          => exact messageIds_published publication randomIds (replyTopMessageId topMsgId)
  | stored channel projection date => exact ids_projectParts channel (replyTopMessageId topMsgId) randomIds projection

theorem answered_sendRichContent (hnodup : randomIds.Nodup) (topMsgId : Option Nat)
    (outcome : Outcome) : Answered randomIds (sendRichContent randomIds topMsgId outcome).updates ↔
      randomIds.length ≤ outcome.newIds.length ∧ (outcome.newIds.take randomIds.length).Nodup := by
  obtain ⟨hpairs, hnews⟩ := ids_sendRichContent randomIds topMsgId outcome
  rw [answered_iff_of_pairs hnodup hpairs (fun id hid => .inr (mem_brings (hnews ▸ hid)))]
  rw [filter_eq_self.2 (fun id hid => decide_eq_true (Outcome.newIds_positive (mem_of_mem_take hid)))]

/-- **A forward answers every random id**: what is left over is cancelled. -/
theorem answered_confirmForward {payload : RawUpdates} (hunpaired : messageIds payload.updates = [])
    (hnodup : randomIds.Nodup) :
    Answered randomIds (confirmForwardRandomIds payload randomIds).updates ↔
      ((newIds payload.updates).take randomIds.length).Nodup := by
  obtain ⟨hpairs, hnews⟩ := messageIds_confirmForward hunpaired randomIds
  rw [answered_iff_of_pairs hnodup hpairs (fun id hid => ?_)]
  · have hlength : randomIds.length ≤
        (newIds payload.updates ++ List.replicate randomIds.length cancelledMessageId).length := by
      rw [length_append, length_replicate]
      omega
    have hzeros : ∀ n m : Nat, (((List.replicate n cancelledMessageId).take m).filter
        (fun id => decide (id ≠ cancelledMessageId))) = [] := fun n m => filter_eq_nil_iff.2 (fun id hid hne =>
      of_decide_eq_true hne (eq_of_mem_replicate (mem_of_mem_take hid)))
    rw [take_append, filter_append, hzeros, append_nil,
      filter_eq_self.2 (fun id hid => decide_eq_true (newIds_positive (mem_of_mem_take hid)))]
    exact and_iff_right hlength
  · rcases mem_append.1 hid with hid | hid
    · exact .inr (mem_brings (hnews ▸ hid))
    · exact .inl (eq_of_mem_replicate hid)

theorem unpaired_published (outcomes : List Outcome) :
    messageIds ((publishedPayloads outcomes).flatMap RawUpdates.updates) = [] := by
  induction outcomes with
  | nil                      => rfl
  | cons outcome outcomes ih =>
    cases outcome with
    | stored _ _ _          => exact ih
    | published publication =>
      have hcons : publishedPayloads (.published publication :: outcomes) =
          publishLocalMessage publication [] none :: publishedPayloads outcomes := rfl
      have hpublish : publishLocalMessage publication [] none = publication.payload := if_neg (by simp)
      rw [hcons, flatMap_cons, messageIds_append, ih, hpublish, publication.unpaired]
      rfl

theorem answered_forwardMessages (hnodup : randomIds.Nodup) (channel : Bool) (now : Int) (outcomes : List Outcome) :
    Answered randomIds (forwardMessages randomIds channel now outcomes).updates ↔
      ((newIds ((publishedPayloads outcomes).flatMap RawUpdates.updates) ++
        (projections outcomes).map TlMessage.id).take randomIds.length).Nodup := by
  obtain ⟨hnews, hids⟩ := ids_map_newUpdate channel (projections outcomes)
  have hpayload : ∃ payload : RawUpdates, forwardMessages randomIds channel now outcomes =
      confirmForwardRandomIds payload randomIds ∧ payload.updates =
        (publishedPayloads outcomes).flatMap RawUpdates.updates ++ (projections outcomes).map (newUpdate channel) := by
    refine ⟨_, rfl, ?_⟩
    by_cases hstored : projections outcomes = []
    · rw [hstored, if_pos rfl, append_nil, map_nil, append_nil]
      split
      · rename_i hnone
        rw [hnone]
        rfl
      · rfl
    · rw [if_neg hstored, if_neg (append_ne_nil_of_right_ne_nil _ (cons_ne_nil _ _))]
      show ((publishedPayloads outcomes) ++ _).flatMap RawUpdates.updates = _
      rw [flatMap_append, flatMap_singleton]
  obtain ⟨payload, hforward, hupdates⟩ := hpayload
  have hunpaired : messageIds payload.updates = [] := by
    rw [hupdates, messageIds_append, unpaired_published, hids]
    rfl
  rw [hforward, answered_confirmForward hunpaired hnodup, hupdates, newIds_append, hnews]

/-- **Every random id is answered once** if and only if a send of rich content has a new message for each, and the
messages that are paired are distinct. -/
theorem answered_iff (call : SendCall) (hdistinct : call.randomIds.Nodup) (payload : RawUpdates)
    (h : call.result = .ok payload) :
    Answered call.randomIds payload.updates ↔ call.Enough ∧ (call.newIds.take call.randomIds.length).Nodup := by
  cases call with
  | sendMessage randomId topMsgId localMessage outcome =>
    cases outcome with
    | published publication          =>
      have hresult : SendConfirmations.sendMessage randomId topMsgId localMessage (.published publication) = .ok payload := h
      unfold SendConfirmations.sendMessage at hresult
      dsimp only at hresult
      split at hresult
      · cases hresult
      · rename_i hsome
        cases hresult
        have hanswered := answered_sendRichContent hdistinct topMsgId (.published publication)
        refine hanswered.trans (and_congr_left (fun _ => iff_of_true ?_ trivial))
        have hnews : newIds (pairWith (fun _ => false) (replyTopMessageId topMsgId) [randomId] publication.payload.updates) =
            newIds publication.payload.updates := newIds_pairWith _ _
        have hne : newIds publication.payload.updates ≠ [] := by
          rw [← hnews]
          exact fun hnil => hsome (map_eq_nil_iff.1 hnil)
        exact length_pos_iff.2 hne
    | stored channel projection date =>
      cases h
      have hpairs : messageIds [.updateMessageID (projection.headD localMessage).id randomId,
          withReplyToTopId (replyTopMessageId topMsgId) (newUpdate channel (projection.headD localMessage))] =
            [randomId].zip [(projection.headD localMessage).id] := by
        obtain ⟨_, hid⟩ := newMessage_newUpdate channel (projection.headD localMessage)
        rw [messageIds_cons, messageIds_cons, (withReplyToTopId_keeps _ _).1, hid]
        rfl
      refine (answered_iff_of_pairs hdistinct hpairs (fun id hid => .inr ?_)).trans
        (iff_of_true ⟨Nat.le_refl 1, ?_⟩ ⟨trivial, pairwise_singleton _ _⟩)
      · obtain ⟨hnew, _⟩ := newMessage_newUpdate channel (projection.headD localMessage)
        rw [brings_cons, brings_cons, (withReplyToTopId_keeps _ _).2.2, (messageId_of_newMessage hnew).2]
        exact hid
      · exact (pairwise_singleton _ _).filter _
  | scheduleTextMessage randomId message date =>
    cases h
    have hpairs : messageIds [.updateMessageID message.id randomId, .updateNewScheduledMessage message] =
        [randomId].zip [message.id] := rfl
    refine (answered_iff_of_pairs hdistinct hpairs (fun id hid => .inr hid)).trans
      (iff_of_true ⟨Nat.le_refl 1, (pairwise_singleton _ _).filter _⟩ ⟨trivial, pairwise_singleton _ _⟩)
  | sendRichMessage randomId topMsgId outcome =>
    cases h
    exact answered_sendRichContent hdistinct topMsgId outcome
  | sendMedia randomId topMsgId outcome =>
    cases h
    exact answered_sendRichContent hdistinct topMsgId outcome
  | sendMultiMedia randomIds topMsgId outcome =>
    cases h
    exact answered_sendRichContent hdistinct topMsgId outcome
  | forwardMessages randomIds channel now outcomes =>
    cases h
    exact (answered_forwardMessages hdistinct channel now outcomes).trans (iff_of_eq (true_and _)).symm
  | forwardToSystemPeer randomIds outcome =>
    cases h
    cases outcome with
    | published publication          =>
      have hpublish : publishLocalMessage publication [] none = publication.payload := if_neg (by simp)
      have hanswered := answered_confirmForward publication.unpaired hdistinct
      rw [← hpublish] at hanswered
      exact (hpublish ▸ hanswered).trans (iff_of_eq (true_and _)).symm
    | stored channel projection date =>
      have hids := ids_map_newUpdate false projection
      have hmap : projection.map (newUpdate false) = projection.map .updateNewMessage := rfl
      rw [hmap] at hids
      have hunpaired : messageIds ({ updates := projection.map .updateNewMessage, date := date } : RawUpdates).updates = [] :=
        hids.2
      have hanswered := answered_confirmForward hunpaired hdistinct
      rw [hids.1] at hanswered
      exact hanswered.trans (iff_of_eq (true_and _)).symm

def merged : Publication := ⟨{ updates := [.updateNewMessage ⟨31, by decide, false, none⟩], date := 9 }, rfl⟩

theorem answered_iff_forward :
    Answered [1, 2] (forwardMessages [1, 2] false 9 [.published merged]).updates ↔ True ∧ [31].Nodup :=
  answered_iff (.forwardMessages [1, 2] false 9 [.published merged]) (by decide) _ rfl

theorem merged_unanswered :
    SendCall.result (.sendMultiMedia [1, 2] none (.published merged)) =
        .ok { updates := [.updateMessageID 31 1, .updateNewMessage ⟨31, by decide, false, none⟩], date := 9 } ∧
      ¬ Answered [1, 2] [.updateMessageID 31 1, .updateNewMessage ⟨31, by decide, false, none⟩] := by
  refine ⟨rfl, fun h => ?_⟩
  obtain ⟨id, hid, _⟩ := h.once 2 (by decide)
  cases hid

end SendConfirmations
end Crossgram
