import Crossgram.MessageRewrites
import Crossgram.ReplyTargets
import Crossgram.UpdateSystem
/-!
# MessageDeletions — the ways a message is deleted (packages/bridge/src/dialogs.ts, update-manager.ts)

A delete event is ingested by `MessageStore.deleteMessages` and published by `_publishDelete`, one store call after
another; `messages.deleteMessages`, `channels.deleteMessages` and the edit that resends call `deleteMessages` themselves
and end in `_reservePts`.  Local events (a notice, the replaced message of an edit) take the way of the event.  A
`DeletionWorld` is the message store, the update log with its readers, the publications and requests under way, and what
no code reads: the rows deleted so far, each with whether a payload had brought it, and the pts taken for requests.
-/
namespace Crossgram

/-- `DeleteResult`. -/
structure DeleteResult where
  changed : Bool
  messageIds : List Nat
  tlMessageIds : List Int

def tlMessageIdsOf (t : MessageTables) (messageId : Nat) : List Int :=
  (partsOf t.parts messageId).map (fun part => part.tlMessageId)

/-- The loop of `deleteMessages`: rows not deleted yet are counted as changes, the parts of every row are reported. -/
def deleteResult (t : MessageTables) (messageIds : List Nat) : DeleteResult :=
  let found := messageIds.filterMap t.messageById
  let live := found.filter (fun message => message.deleted = false)
  { changed := !live.isEmpty
    messageIds := live.map (fun message => message.id)
    tlMessageIds := found.flatMap (fun message => tlMessageIdsOf t message.id) }

def deletionTargets (db : Database) (session : PlatformSession) (conversation : IMConversation)
    (platformMessageIds : List String) : List Nat :=
  let (db, row) := upsertConversation db session conversation none
  aliasedMessages db.tables session.platformSessionId row.id platformMessageIds

/-- `MessageStore.deleteMessages` with its answer. -/
def MessageStore.deleteMessages (db : Database) (session : PlatformSession) (conversation : IMConversation)
    (platformMessageIds : List String) : Database × DeleteResult :=
  (Crossgram.deleteMessages db session conversation platformMessageIds,
    deleteResult db.tables (deletionTargets db session conversation platformMessageIds))

def newlyDeleted (before after : MessageTables) : List Nat :=
  (before.messages.rows.filter (fun row => row.deleted = false ∧
    after.messages.rows.any (fun row' => row'.id = row.id ∧ row'.deleted))).map (fun row => row.id)

/-- `event.conversation.kind === 'channel' && event.conversation.parentId`. -/
def IMConversation.parentOf (conversation : IMConversation) : Option String :=
  if conversation.kind = .channel then conversation.parentId.filter (fun parentId => parentId ≠ "") else none

/-- What does not change in a run.  `stableId` is `stableId(peerTlSeed(…))` of the session, `shown` the channel and id of a
rendered message, `onLocalEvent` whether local events are wired. -/
structure DeletionSetup (T : Type) where
  session : PlatformSession
  contentOf : Json → HydratedContent
  stableId : String → Nat
  shown : T → Option (Option Nat × Int)
  onLocalEvent : Bool

namespace DeletionSetup

variable {T D : Type} (S : DeletionSetup T)

def shownIn (conversation : IMConversation) : Option Nat :=
  if conversation.kind = .direct then none else some (S.stableId (conversation.parentOf.getD conversation.id))

/-- `_isTelegramChannel(conversation) ? _peerId(conversation.id) : undefined`. -/
def peerChannel (conversation : IMConversation) : Option Nat :=
  if conversation.kind = .direct then none else some (S.stableId conversation.id)

/-- The channel `_publishDelete` reserves in: none when the stored parent, or else the conversation itself, is direct. -/
def deliveryChannel (db : Database) (conversation : IMConversation) : Option Nat :=
  match conversation.parentOf with
  | none          => S.peerChannel conversation
  | some parentId =>
    match db.conversations.first (isConversation S.session.platformSessionId parentId) with
    | none        => some (S.stableId parentId)
    | some parent => if parent.kind = .direct then none else some (S.stableId parentId)

def brings (channelId : Option Nat) (tlMessageIds : List Int) (payload : RawUpdates T) : Bool :=
  payload.updates.any (fun u => match u with
    | .updateNewMessage message _ _         => named message
    | .updateNewChannelMessage message _ _  => named message
    | .updateEditMessage message _ _        => named message
    | .updateEditChannelMessage message _ _ => named message
    | _                                     => false)
where
  named (message : T) : Bool := (S.shown message).any (fun key => key.1 = channelId ∧ key.2 ∈ tlMessageIds)

end DeletionSetup

def RawUpdates.names {T : Type} (channelId : Option Nat) (tlMessageIds : List Int) (payload : RawUpdates T) : Bool :=
  payload.updates.any (fun u => match u, channelId with
    | .updateDeleteMessages messages _ _, none              => tlMessageIds.all (fun id => messages.contains id)
    | .updateDeleteChannelMessages c messages _ _, some c'  => c = c' ∧ tlMessageIds.all (fun id => messages.contains id)
    | _, _                                                  => false)

structure Deletion where
  messageId : Nat
  channelId : Option Nat
  tlMessageIds : List Int
  published : Bool

structure DeletionGap where
  channelId : Option Nat
  tlMessageIds : List Int
  pts : Int
  ptsCount : Nat

/-! ## Publishing a delete event -/

/-- Where `_publishDelete` stands, between two store calls. -/
inductive DeleteStage (T : Type)
  | lookUp
  | prepare
  | prepared (delivery : NewUpdateDelivery (RawUpdates T))
  | store (delivery : NewUpdateDelivery (RawUpdates T))
  | mark

structure DeletePublication (T : Type) where
  eventId : String
  conversation : IMConversation
  timestamp : Int
  result : DeleteResult
  stage : DeleteStage T

/-- What the next step of a publication reads from outside: the clock, the channel's `_makeChat`, whether `_send` reached
a connection or the update goes out with an RPC answer. -/
structure DeletePublishReads (T : Type) where
  now : Int
  chat : T
  delivered : Bool

section Publish

variable {T : Type} (S : DeletionSetup T)

def DeletePublication.eventKey (p : DeletePublication T) : String :=
  S.session.platformSessionId ++ ":delete:" ++ p.eventId

def DeletePublication.found (p : DeletePublication T) (delivery : UpdateDelivery (RawUpdates T)) :
    Option (DeletePublication T) :=
  if delivery.published then none else some { p with stage := .store delivery.toNewUpdateDelivery }

def DeletePublication.payload (db : Database) (p : DeletePublication T) (delivery : NewUpdateDelivery (RawUpdates T))
    (chat : T) : RawUpdates T :=
  let ids := p.result.tlMessageIds
  { updates := [match S.shownIn p.conversation with
      | some channelId => .updateDeleteChannelMessages channelId ids delivery.pts delivery.ptsCount
      | none           => .updateDeleteMessages ids delivery.pts delivery.ptsCount]
    users := [], chats := if S.deliveryChannel db p.conversation = none then [] else [chat]
    date := delivery.date, seq := delivery.seq }

/-- One store call of `_publishDelete`, and what is left of the publication. -/
def _publishDelete (db : Database) (L : Ledger (RawUpdates T)) (p : DeletePublication T) (io : DeletePublishReads T) :
    Option (Ledger (RawUpdates T) × Option (DeletePublication T)) :=
  match p.stage with
  | .lookUp =>
    match L.tables.deliveries.get (p.eventKey S) with
    | none          =>
      if p.result.changed = false ∨ p.result.tlMessageIds = [] then some (L, none)
      else some (L, some { p with stage := .prepare })
    | some delivery => some (L, if p.result.tlMessageIds = [] then none else p.found delivery)
  | .prepare =>
    (L.write (.begin (p.eventKey S) S.session.platformSessionId p.result.tlMessageIds.length p.timestamp
      (S.deliveryChannel db p.conversation) io.now)).map (fun L' =>
        (L', match L'.writing with
          | some delivery => some { p with stage := .prepared delivery }
          | none          => (L'.tables.deliveries.get (p.eventKey S)).bind p.found))
  | .prepared delivery =>
    -- the store itself creates the row; `prepareUpdateDelivery` returns after it
    if L.writing.any (fun d => d.eventKey = p.eventKey S) then none else some (L, some { p with stage := .store delivery })
  | .store delivery =>
    (L.write (.other (.setPayload (p.eventKey S) (p.payload S db delivery io.chat)))).map (fun L' =>
      (L', some { p with stage := .mark }))
  | .mark =>
    if io.delivered then (L.write (.other (.markPublished (p.eventKey S)))).map (fun L' => (L', none)) else some (L, none)

end Publish

/-! ## Requests -/

inductive DeletingCall
  | deleteMessages (channel : Option IMConversation)
  | editMessage (conversation : IMConversation)

/-- A request under way: what it has found (the conversation, the platform id and whether it is a notice) while it is
looking ids up, the ids it is to reserve pts for, and, for the record, the rows it deleted. -/
structure DeleteRequest where
  call : DeletingCall
  looking : Bool
  targets : List (String × String × Bool)
  affected : List Int
  deletedIds : List Nat

namespace DeleteRequest

/-- `ptsCount`: `affected` is a set for a deletion; an edit adds the parts of the new message. -/
def ptsCount (r : DeleteRequest) (projected : Nat) : Nat :=
  match r.call with
  | .deleteMessages _ => (Maps.distinct r.affected).length
  | .editMessage _    => r.affected.length + projected

def targetsIn (r : DeleteRequest) (conversationId : String) (notices : Bool) : List String :=
  Maps.distinct ((r.targets.filter (fun target => target.1 = conversationId ∧ target.2.2 = notices)).map
    (fun target => target.2.1))

end DeleteRequest

def DeletionSetup.reservedChannel {T : Type} (S : DeletionSetup T) : DeletingCall → Option Nat
  | .deleteMessages channel   => channel.bind S.peerChannel
  | .editMessage conversation => S.peerChannel conversation

/-- `findProjectedByTlId(…, undefined, 'direct')`: the first part with the id whose conversation is a direct chat. -/
def findDirectByTlId (contentOf : Json → HydratedContent) (db : Database) (platformSessionId : String)
    (tlMessageId : Int) : Option ProjectedMessage :=
  (db.tables.parts.first (fun part => part.platformSessionId = platformSessionId ∧ part.tlMessageId = tlMessageId ∧
    (db.conversations.first (fun conversation => conversation.id = part.conversationId)).any
      (fun conversation => conversation.kind = .direct))).bind (fun part => projectedMessage contentOf db part.messageId)

def DeleteRequest.lookUp {T : Type} (S : DeletionSetup T) (r : DeleteRequest) (db : Database) (tlMessageId : Int) :
    Option ProjectedMessage :=
  match r.call with
  | .deleteMessages (some channel) =>
    findProjectedByTlId S.contentOf db S.session.platformSessionId tlMessageId channel.id
  | _ => findDirectByTlId S.contentOf db S.session.platformSessionId tlMessageId

/-! ## The system -/

structure DeletionWorld (T D : Type) where
  db : Database
  log : UpdateWorld (RawUpdates T) T D
  publications : Nat → Option (DeletePublication T)
  requests : Nat → Option DeleteRequest
  deletions : List Deletion
  gaps : List DeletionGap

inductive DeletionAction (T : Type)
  | log (a : UpdateAction (RawUpdates T))
  | store (reader : MessageReader) (op : StoreOperation)
  | deleteEvent (k : Nat) (eventId : String) (conversation : IMConversation) (platformMessageIds : List String)
      (timestamp : Int)
  | publish (k : Nat) (io : DeletePublishReads T)
  | request (i : Nat) (call : DeletingCall)
  | find (i : Nat) (tlMessageId : Int)
  /-- The messages of one conversation, or, without local events, its notices. -/
  | delete (i : Nat) (conversation : IMConversation) (notices : Bool)
  | noticesPublished (i : Nat) (tlMessageIds : List Int)
  /-- Without local events an edit deletes the message it replaces. -/
  | replace (i : Nat) (replacedMessageId : String)
  | reserve (i : Nat) (projected : Nat) (date : Int)
  | fail (i : Nat)

namespace DeletionWorld

variable {T D : Type} (S : DeletionSetup T)

def start (db : Database) (t : UpdateTables (RawUpdates T)) : DeletionWorld T D :=
  { db := db, log := Programs.System.idle (.start t), publications := fun _ => none, requests := fun _ => none,
    deletions := [], gaps := [] }

def recorded (w : DeletionWorld T D) (channelId : Option Nat) (after : MessageTables) : List Deletion :=
  (newlyDeleted w.db.tables after).map (fun messageId =>
    { messageId := messageId, channelId := channelId, tlMessageIds := tlMessageIdsOf w.db.tables messageId
      published := w.log.shared.written.any (fun x =>
        S.brings channelId (tlMessageIdsOf w.db.tables messageId) x.2) })

/-- The rows `deleteMessages` deletes. -/
def lost (w : DeletionWorld T D) (conversation : IMConversation) (platformMessageIds : List String) : List Deletion :=
  w.recorded S (S.shownIn conversation)
    (MessageStore.deleteMessages w.db S.session conversation platformMessageIds).1.tables

/-- `deleteMessages` for a request. -/
def deletedFor (w : DeletionWorld T D) (i : Nat) (r : DeleteRequest) (conversation : IMConversation)
    (platformMessageIds : List String) : DeletionWorld T D :=
  let deleted := MessageStore.deleteMessages w.db S.session conversation platformMessageIds
  { w with
    db := deleted.1
    requests := Function.update w.requests i (some { r with
      looking := false
      affected := r.affected ++ deleted.2.tlMessageIds, deletedIds := r.deletedIds ++ deleted.2.messageIds })
    deletions := w.deletions ++ w.lost S conversation platformMessageIds }

def closed (w : DeletionWorld T D) (i : Nat) : DeletionWorld T D :=
  { w with requests := Function.update w.requests i none }

def gapOf (w : DeletionWorld T D) (r : DeleteRequest) (projected : Nat) : DeletionGap :=
  let channelId := S.reservedChannel r.call
  { channelId := channelId
    tlMessageIds := r.affected
    pts := w.log.shared.tables.counter S.session.platformSessionId (scopeOf channelId) + r.ptsCount projected
    ptsCount := r.ptsCount projected }

/-- `_reservePts`, after which the request answers.  A deletion that affected nothing reserves nothing, and a count out of
range throws. -/
def reserved (w : DeletionWorld T D) (i : Nat) (r : DeleteRequest) (projected : Nat) (date : Int) :
    Option (DeletionWorld T D) :=
  let ptsCount := r.ptsCount projected
  if ptsCount = 0 ∨ maxSafeInteger < ptsCount then some (w.closed i)
  else
    (w.log.shared.write (.other (.advancePts S.session.platformSessionId ptsCount date
      (S.reservedChannel r.call)))).map (fun L =>
        { w.closed i with log := { w.log with shared := L }, gaps := w.gaps ++ [w.gapOf S r projected] })

variable (codec : TlCodec (RawUpdates T) T) (buildTooLong : Nat → Int → Option D)

def step (w : DeletionWorld T D) : DeletionAction T → Option (DeletionWorld T D)
  | .log a =>
    ((updateSystem codec buildTooLong).step w.log a).map (fun log => { w with log := log })
  | .store reader op =>
    match op with
    | .deleteMessages _ _ _ => none
    | op =>
      match MessageStore.apply reader w.db op with
      | .error _      => some w
      | .ok (db, _)   => some { w with db := db, deletions := w.deletions ++ w.recorded S none db.tables }
  | .deleteEvent k eventId conversation platformMessageIds timestamp =>
    match w.publications k with
    | some _ => none
    | none   =>
      let deleted := MessageStore.deleteMessages w.db S.session conversation platformMessageIds
      some { w with
        db := deleted.1
        publications := Function.update w.publications k (some
          { eventId := eventId, conversation := conversation, timestamp := timestamp, result := deleted.2
            stage := .lookUp })
        deletions := w.deletions ++ w.lost S conversation platformMessageIds }
  | .publish k io =>
    (w.publications k).bind (fun p => (_publishDelete S w.db w.log.shared p io).map (fun next =>
      { w with
        log := { w.log with shared := next.1 }
        publications := Function.update w.publications k next.2 }))
  | .request i call =>
    match w.requests i with
    | some _ => none
    | none   => some { w with requests := Function.update w.requests i (some ⟨call, true, [], [], []⟩) }
  | .find i tlMessageId =>
    (w.requests i).bind (fun r =>
      if r.looking then
        match r.lookUp S w.db tlMessageId with
        | none           => some (w.closed i)
        | some projected => some { w with requests := Function.update w.requests i (some { r with
            targets := r.targets ++
              [(projected.source.conversationId, projected.source.id, isServiceMessage projected.source)] }) }
      else none)
  | .delete i conversation notices =>
    (w.requests i).bind (fun r =>
      if notices && S.onLocalEvent then none
      else some (w.deletedFor S i r conversation (r.targetsIn conversation.id notices)))
  | .noticesPublished i tlMessageIds =>
    (w.requests i).bind (fun r =>
      if S.onLocalEvent then
        some { w with requests := Function.update w.requests i (some { r with
          looking := false, affected := r.affected ++ tlMessageIds }) }
      else none)
  | .replace i replacedMessageId =>
    (w.requests i).bind (fun r =>
      match r.call with
      | .deleteMessages _         => none
      | .editMessage conversation =>
        if S.onLocalEvent then none else some (w.deletedFor S i r conversation [replacedMessageId]))
  | .reserve i projected date => (w.requests i).bind (fun r => w.reserved S i r projected date)
  | .fail i => (w.requests i).map (fun _ => w.closed i)

end DeletionWorld

end Crossgram
