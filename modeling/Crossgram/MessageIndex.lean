import Crossgram.Lib.BoundedMaps
import Crossgram.ReplyTargets
/-!
# MessageIndex — the message indexes of one `DialogRpc` (packages/bridge/src/dialogs.ts)

A `DialogRpc` keeps three bounded maps: from a message or QQ sequence of a conversation to a Telegram id, and from a bare
Telegram id to the message it was last seen as and to whether that one was the account's own.  Replies are resolved
through the first, service notices and mentions through the other two.  The keys of the first map are the conversation
and the rest joined by NUL, which no platform id has in it.
-/
namespace Crossgram

inductive IndexKey
  | message (conversationId id : String) (ordinal : Nat)
  | qqSequence (conversationId : String) (sequence : Nat)
deriving DecidableEq

structure MessageRef where
  peerId : String
  platformMessageId : String
  ordinal : Nat
  nativeSequence : Option Nat
  service : Bool

structure MessageIndex where
  messageToTl : List (IndexKey × Int)
  tlToMessage : List (Int × MessageRef)
  messageOutgoingByTl : List (Int × Bool)

def MessageIndex.empty : MessageIndex := { messageToTl := [], tlToMessage := [], messageOutgoingByTl := [] }

structure MaterializedMessage where
  source : HydratedMessage
  tlId : Int
  ordinal : Nat
  groupedId : Option String := none
  mediaId : Option Nat := none
  media : List IMMediaRow := []
  unreadMention : Bool := false

/-! ## Writing the indexes -/

inductive IndexWrite
  | messageToTl (key : IndexKey) (tlId : Int)
  | tlToMessage (tlId : Int) (ref : MessageRef)
  | outgoing (tlId : Int) (outgoing : Bool)

def MaterializedMessage.sourceId (item : MaterializedMessage) : Option String :=
  item.source.sourceIds[item.ordinal]?.filter (fun id => id ≠ "")

def MaterializedMessage.nativeSequence (item : MaterializedMessage) : Option Nat :=
  if item.ordinal = 0 then qqMessageSequenceFromMetadata item.source.metadata else none

def MaterializedMessage.keys (item : MaterializedMessage) : List IndexKey :=
  [.message item.source.conversationId item.source.id item.ordinal]
    ++ (item.sourceId.map (fun id => IndexKey.message item.source.conversationId id 0)).toList
    ++ (item.nativeSequence.map (fun sequence => IndexKey.qqSequence item.source.conversationId sequence)).toList

def MaterializedMessage.ref (item : MaterializedMessage) : MessageRef :=
  { peerId := item.source.conversationId
    platformMessageId := item.source.sourceIds[item.ordinal]?.getD item.source.id
    ordinal := item.ordinal
    nativeSequence := item.nativeSequence
    service := isServiceMessage item.source }

/-- `_rememberMessage`. -/
def MaterializedMessage.writes (item : MaterializedMessage) : List IndexWrite :=
  item.keys.map (fun key => IndexWrite.messageToTl key item.tlId)
    ++ [.tlToMessage item.tlId item.ref, .outgoing item.tlId item.source.outgoing]

def ProjectedMessage.items (projected : ProjectedMessage) : List MaterializedMessage :=
  projected.parts.map (fun part =>
    { source := projected.source, tlId := part.tlMessageId, ordinal := part.ordinal, groupedId := part.groupedId,
      mediaId := part.mediaId, media := projected.media })

def ProjectedMessage.primary (projected : ProjectedMessage) : Option TlMessagePartRow :=
  (projected.parts.find? (fun part => part.ordinal = 0)).or projected.parts.head?

/-- `_rememberProjection`: with a key, the key leads to the first part. -/
def ProjectedMessage.writes (projected : ProjectedMessage) (key : Option IndexKey) : List IndexWrite :=
  projected.items.flatMap MaterializedMessage.writes
    ++ (key.bind (fun key => projected.primary.map (fun part => IndexWrite.messageToTl key part.tlMessageId))).toList

namespace MessageIndex

variable (limit : Option Nat)

def write (i : MessageIndex) : IndexWrite → MessageIndex
  | .messageToTl key tlId   => { i with messageToTl := BoundedMaps.set limit i.messageToTl key tlId }
  | .tlToMessage tlId ref   => { i with tlToMessage := BoundedMaps.set limit i.tlToMessage tlId ref }
  | .outgoing tlId outgoing => { i with messageOutgoingByTl := BoundedMaps.set limit i.messageOutgoingByTl tlId outgoing }

def writeAll (i : MessageIndex) (writes : List IndexWrite) : MessageIndex := writes.foldl (write limit) i

def rememberMessage (i : MessageIndex) (item : MaterializedMessage) : MessageIndex := i.writeAll limit item.writes

def leadsToService (i : MessageIndex) (tlId : Int) : Bool :=
  ((Maps.get i.tlToMessage tlId).map (fun ref => ref.service)).getD false

end MessageIndex

/-! ## Reply targets -/

/-- What the store answers while a page is prepared: before and after missing targets were fetched from the platform. -/
structure ReplyStore where
  contentOf : Json → HydratedContent
  platformSessionId : String
  db : Database
  fetched : Database

def replyKey (message : HydratedMessage) : Option IndexKey :=
  message.repliesTo.map (fun id => .message message.conversationId id 0)

def sequenceKey (message : HydratedMessage) : Option IndexKey :=
  (qqReplySequenceFromMetadata message.metadata).map (fun sequence => .qqSequence message.conversationId sequence)

def nativeReplyTo (message : HydratedMessage) : Option Int :=
  if (qqReplySequenceFromMetadata message.metadata).isNone then telegramReplyToMessageId message else none

/-- A page under preparation: the index, the targets to look up under their keys, the notices to look behind. -/
structure ReplySearch where
  index : MessageIndex
  targets : List (IndexKey × HydratedMessage)
  sidecars : List (IndexKey × HydratedMessage)

namespace ReplyStore

variable (limit : Option Nat) (store : ReplyStore)

def noteKnown (key : IndexKey) (message : HydratedMessage) (wanted : Bool) (search : ReplySearch) : ReplySearch :=
  match Maps.get search.index.messageToTl key with
  | none      => if wanted then { search with targets := Maps.set search.targets key message } else search
  | some known =>
    if search.index.leadsToService known then { search with sidecars := search.sidecars ++ [(key, message)] } else search

def directTarget (i : MessageIndex) (message : HydratedMessage) : Option ProjectedMessage :=
  match qqReplySequenceFromMetadata message.metadata with
  | some sequence =>
    if (Maps.get i.messageToTl (.qqSequence message.conversationId sequence)).isSome then none
    else findProjectedByNativeSequence store.contentOf store.db store.platformSessionId message.conversationId sequence
  | none =>
    match telegramReplyToMessageId message with
    | some tlId =>
      if Maps.has i.messageOutgoingByTl tlId then none
      else findProjectedByTlId store.contentOf store.db store.platformSessionId tlId message.conversationId
    | none => none

/-- The first loop of `_rememberReplyTargets`, for one message. -/
def searchMessage (search : ReplySearch) (message : HydratedMessage) : ReplySearch :=
  let search := match replyKey message with
    | some key => noteKnown key message true search
    | none     => search
  let search := match sequenceKey message with
    | some key => noteKnown key message false search
    | none     => search
  { search with
    index := search.index.writeAll limit (((store.directTarget search.index message).map (fun projected =>
      projected.writes none)).getD []) }

def target (message : HydratedMessage) : Option ProjectedMessage :=
  (findReplyTarget store.contentOf store.db store.platformSessionId message).or
    (if message.repliesTo.isSome then findReplyTarget store.contentOf store.fetched store.platformSessionId message else none)

def bindTarget (found : HydratedMessage → Option ProjectedMessage) (i : MessageIndex) (entry : IndexKey × HydratedMessage) :
    MessageIndex :=
  i.writeAll limit (((found entry.2).map (fun projected => projected.writes (some entry.1))).getD [])

/-- `_rememberReplyTargets`. -/
def rememberReplyTargets (i : MessageIndex) (messages : List HydratedMessage) : MessageIndex :=
  let search := messages.foldl (store.searchMessage limit) { index := i, targets := [], sidecars := [] }
  let index := search.targets.foldl (bindTarget limit store.target) search.index
  search.sidecars.foldl (bindTarget limit
    (findReplyTarget store.contentOf store.fetched store.platformSessionId)) index

end ReplyStore

/-! ## Rendering -/

/-- What rendering reads besides the indexes; none of it depends on which messages were shown before. -/
structure Renderer (ρ : Type) where
  platformSessionId : String
  userId : String
  conversation : String → IMConversation
  topicId : IMConversation → Int → Option Int
  rest : MaterializedMessage → ρ

/-- The arguments of `projectTlMessage`; `rest` are those that do not come from the indexes. -/
structure TlMessageOptions (ρ : Type) where
  item : MaterializedMessage
  replyToTlId : Option Int
  topicId : Option Int
  mentioned : Bool
  unreadMention : Bool
  rest : ρ

namespace MessageIndex

/-- `_messageReplyHeader`, down to the id. -/
def messageReplyHeader (i : MessageIndex) (source : HydratedMessage) : Option Int :=
  (((replyKey source).bind (Maps.get i.messageToTl)).filter (fun id => id ≠ 0)).or
    ((((sequenceKey source).bind (Maps.get i.messageToTl)).filter (fun id => id ≠ 0)).or (nativeReplyTo source))

def messageMentioned {ρ : Type} (i : MessageIndex) (r : Renderer ρ) (source : HydratedMessage) (replyToTlId : Option Int) :
    Bool :=
  decide ((r.conversation source.conversationId).kind ≠ .direct) && !source.outgoing &&
    (messageMentionsUser source r.userId
      || ((replyToTlId.bind (Maps.get i.messageOutgoingByTl)).getD false))

/-- `_makeMessage`. -/
def makeMessage {ρ : Type} (i : MessageIndex) (r : Renderer ρ) (item : MaterializedMessage) : TlMessageOptions ρ :=
  let reply := i.messageReplyHeader item.source
  { item := item
    replyToTlId := reply
    topicId := r.topicId (r.conversation item.source.conversationId) item.tlId
    mentioned := decide (item.ordinal = 0) && i.messageMentioned r item.source reply
    unreadMention := item.unreadMention
    rest := r.rest item }

def logical (history : List MaterializedMessage) : List MaterializedMessage :=
  ((Maps.ofList ((history.filter (fun item => item.ordinal = 0)).map (fun item => (item.tlId, item)))).map Prod.snd).insertionSort
    (fun a b => b.tlId ≤ a.tlId)

/-- The calls of `setMessageMentioned` that `_syncMentionStates` makes for a conversation that is not direct: the id, and
whether the mention starts unread. -/
def syncMentionStates {ρ : Type} (i : MessageIndex) (r : Renderer ρ) (history : List MaterializedMessage)
    (unreadCount : Nat) : List (Int × Bool) :=
  let unreadIds := (((logical history).filter (fun item => item.source.outgoing = false)).take unreadCount).map
    (fun item => item.tlId)
  ((logical history).filter (fun item => i.messageMentioned r item.source (i.messageReplyHeader item.source))).map
    (fun item => (item.tlId, decide (item.tlId ∈ unreadIds)))

end MessageIndex

end Crossgram
