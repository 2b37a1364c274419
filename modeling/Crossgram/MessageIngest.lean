import Crossgram.MessageProjection
/-!
# MessageIngest — messages into the store (packages/bridge/src/message-store.ts)

`ingestMessage` stores one message; the operations run it for one message, a batch, the dialogs of a list or a request.
An operation is one transaction: one that throws leaves the database as it was (`MessageStore.step`).  What other modules
read off a message is a `MessageReader`.
-/
namespace Crossgram

structure MessageSearchContext where
  selfUserId : String
  conversationKind : IMConversationKind
  repliesToSelf : Bool

/-- The functions of platform.ts, message-search.ts, request-inbox.ts and the projection plugins that the store calls. -/
structure MessageReader where
  messageText : IMMessage → String
  messageSearchText : IMMessage → String
  messageSearchKinds : IMMessage → MessageSearchContext → Nat
  isArticleMessage : IMMessage → Bool
  plan : PlatformSession → IMConversationRow → IMMessage → Allocation → MessageProjectionPlan → MessageProjectionPlan
  requestInboxMessage : IMRequest → IMMessage
  requestTimestamp : Option Json → Int

/-! ## What is read off a message -/

def storedReplyToKey : String := "__mtprotoRelayReplyToId"

def storedSenderTitleKey : String := "__mtprotoRelaySenderTitle"

def storedRecalledKey : String := "__mtprotoRelayRecalled"

def messageMetadata (message : IMMessage) : JsonObject :=
  Json.spread (Json.spread (Json.spread message.metadata
    ((message.replyToId.map (fun id => (storedReplyToKey, Json.str id))).toList))
    ((message.senderTitle.map (fun title => (storedSenderTitleKey, Json.str title))).toList))
    (if message.recalled then [(storedRecalledKey, .bool true)] else [])

def IMMessagePart.toJson : IMMessagePart → Json
  | .text body mentions => .obj [("type", .str "text"), ("text", .str body), ("mentions", .arr (mentions.map Json.str))]
  | .media item         => .obj [("type", .str "media"), ("id", .str item.id),
      ("kind", .str (match item.kind with
        | .image => "image"
        | .file  => "file")), ("details", item.details)]
  | .other value        => value

def persistMessageContent (content : IMMessageContent) : Json :=
  .obj [("parts", .arr (content.parts.map IMMessagePart.toJson)), ("rest", content.rest)]

def IMMessage.allSourceIds (source : IMMessage) : List String := Maps.distinct (source.id :: source.sourceIds)

def referencedUserIds (message : IMMessage) : List String :=
  Maps.distinct
    (message.content.parts.flatMap (fun part => match part with
        | .text _ mentions => mentions
        | _                => [])
      ++ (message.reactionContext.map (fun context => context.reactions.flatMap (fun r => r.recentActors))).getD [])

def mediaOf (source : IMMessage) : List (IMMedia × Nat) :=
  source.content.parts.zipIdx.filterMap (fun part => match part.1 with
    | .media media => some (media, part.2)
    | _            => none)

/-! ## Look-ups -/

def isAlias (platformSessionId : String) (conversationId : Nat) (platformMessageId : String) (row : IMMessageAliasRow) :
    Bool :=
  row.platformSessionId = platformSessionId ∧ row.conversationId = conversationId ∧ row.platformMessageId = platformMessageId

def isPrimary (platformSessionId : String) (conversationId : Nat) (platformMessageId : String) (row : IMMessageRow) : Bool :=
  row.platformSessionId = platformSessionId ∧ row.conversationId = conversationId ∧
    row.primaryPlatformMessageId = platformMessageId

namespace MessageTables

variable (t : MessageTables)

def messageById (id : Nat) : Option IMMessageRow := t.messages.first (fun row => row.id = id)

def findAlias (platformSessionId : String) (conversationId : Nat) (source : IMMessage) : Option IMMessageAliasRow :=
  source.allSourceIds.findSome? (fun id => t.aliases.first (isAlias platformSessionId conversationId id))

def findMessage (platformSessionId : String) (conversationId : Nat) (source : IMMessage) :
    Option IMMessageAliasRow → Option IMMessageRow
  | some existing => t.messageById existing.messageId
  | none          => t.messages.first (isPrimary platformSessionId conversationId source.id)

/-- `_searchContext`: whether the message answers one of the account's own. -/
def searchContext (session : PlatformSession) (conversation : IMConversationRow) (source : IMMessage) :
    MessageSearchContext :=
  { selfUserId := session.userId
    conversationKind := conversation.kind
    repliesToSelf :=
      match source.replyToId.filter (fun id => id ≠ "") with
      | some replyToId =>
        if conversation.kind ≠ .direct ∧ source.outgoing = false then
          match t.aliases.first (fun row => row.conversationId = conversation.id ∧ row.platformMessageId = replyToId) with
          | some known => ((t.messageById known.messageId).map (fun target => target.outgoing)).getD false
          | none       => false
        else false
      | none => false }

end MessageTables

/-- The maps `_prefetchHistoryIngest` reads for a batch. -/
structure HistoryIngestPrefetch where
  usersByPlatformId : List (String × IMUserRow)
  aliasesByPlatformId : List (String × IMMessageAliasRow)
  messagesById : List (Nat × IMMessageRow)
  messagesByPrimaryId : List (String × IMMessageRow)
  projectionsByMessageId : List (Nat × List TlMessagePartRow)

namespace HistoryIngestPrefetch

variable (prefetch : HistoryIngestPrefetch)

def findAlias (source : IMMessage) : Option IMMessageAliasRow :=
  source.allSourceIds.findSome? (fun id => Maps.get prefetch.aliasesByPlatformId id)

def findMessage (source : IMMessage) : Option IMMessageAliasRow → Option IMMessageRow
  | some existing => Maps.get prefetch.messagesById existing.messageId
  | none          => Maps.get prefetch.messagesByPrimaryId source.id

end HistoryIngestPrefetch

/-! ## One message -/

def writeMessage (reader : MessageReader) (source : IMMessage) (senderUserId searchKinds : Nat) (metadata : JsonObject)
    (row : IMMessageRow) : IMMessageRow :=
  { row with
    senderUserId := senderUserId
    text := reader.messageText source
    content := persistMessageContent source.content
    timestamp := source.timestamp
    outgoing := source.outgoing
    platformGroupId := source.groupId
    metadata := metadata
    searchText := reader.messageSearchText source
    searchKinds := some searchKinds }

def isChanged (reader : MessageReader) (source : IMMessage) (senderUserId : Nat) (message : IMMessageRow) : Bool :=
  !message.deleted &&
    (message.senderUserId ≠ senderUserId
    || message.text ≠ reader.messageText source
    || !Json.jsonEquals message.content (persistMessageContent source.content)
    || message.timestamp ≠ source.timestamp
    || message.outgoing ≠ source.outgoing
    || message.platformGroupId ≠ source.groupId
    || !Json.jsonContains (.obj message.metadata) (.obj (messageMetadata source)))

/-- `upsert` of the aliases under (`conversationId`, `platformMessageId`). -/
def upsertAliases (platformSessionId : String) (conversationId messageId : Nat) :
    Nat → List String → Table IMMessageAliasRow → Table IMMessageAliasRow
  | _,       [],        aliases => aliases
  | ordinal, id :: ids, aliases => upsertAliases platformSessionId conversationId messageId (ordinal + 1) ids
      (aliases.upsert (fun row => row.conversationId = conversationId ∧ row.platformMessageId = id)
        (fun row => ⟨row.id, platformSessionId, conversationId, id, messageId, ordinal⟩) (fun _ => rfl)
        (fun rowId => ⟨rowId, platformSessionId, conversationId, id, messageId, ordinal⟩) (fun _ => rfl))

def mediaRow (messageId ordinal : Nat) (item : IMMedia × Nat) (id : Nat) : IMMediaRow :=
  { id := id, messageId := messageId, ordinal := ordinal, partIndex := item.2, platformMediaId := item.1.id,
    kind := item.1.kind, details := item.1.details }

def isMedia (messageId ordinal : Nat) (item : IMMedia × Nat) (row : IMMediaRow) : Bool :=
  row.messageId = messageId ∧ row.ordinal = ordinal ∧ row.platformMediaId = item.1.id

def storeMedia (messageId : Nat) : Nat → List (IMMedia × Nat) → Table IMMediaRow → Table IMMediaRow × List IMMediaRow
  | _,       [],            media => (media, [])
  | ordinal, item :: items, media =>
    let stored := match media.first (isMedia messageId ordinal item) with
      | some row => (media.set (fun other => other.id = row.id) (fun other => mediaRow messageId ordinal item other.id)
          (fun _ => rfl), mediaRow messageId ordinal item row.id)
      | none     => (media.insert (mediaRow messageId ordinal item) (fun _ => rfl),
          mediaRow messageId ordinal item media.nextId)
    let rest := storeMedia messageId (ordinal + 1) items stored.1
    (rest.1, stored.2 :: rest.2)

inductive Noted
  | nothing | message | written

structure StoredMessage where
  tables : MessageTables
  cache : List (String × Int)
  result : IngestResult
  noted : Noted

structure Ingesting where
  reader : MessageReader
  session : PlatformSession
  conversation : IMConversationRow
  allocation : Allocation

namespace Ingesting

variable (g : Ingesting)

def newMessage (source : IMMessage) (senderUserId searchKinds id : Nat) : IMMessageRow :=
  { id := id, platformSessionId := g.session.platformSessionId, conversationId := g.conversation.id,
    primaryPlatformMessageId := source.id, senderUserId := senderUserId, text := g.reader.messageText source,
    content := persistMessageContent source.content, timestamp := source.timestamp,
    outgoing := source.outgoing, deleted := false, platformGroupId := source.groupId,
    metadata := messageMetadata source, searchText := g.reader.messageSearchText source,
    searchKinds := some searchKinds }

def keepMessage (source : IMMessage) (message : IMMessageRow) (searchKinds : Nat)
    (projectionOf : Nat → Option (List TlMessagePartRow)) (t : MessageTables) (cache : List (String × Int)) : StoredMessage :=
  let stale : Bool := message.searchKinds ≠ some searchKinds
  let fill := fun (row : IMMessageRow) => { row with
    searchText := g.reader.messageSearchText source, searchKinds := some searchKinds }
  let t := if stale then { t with messages := t.messages.set (fun row => row.id = message.id) fill (fun _ => rfl) } else t
  let message := if stale then fill message else message
  let t := replaceReactions t message.id source.reactionContext
  { tables := t
    cache := cache
    result := {
      message := message, created := false, changed := false
      projection := (projectionOf message.id).getD (partsOf t.parts message.id)
      addedTlMessageIds := [], removedTlMessageIds := [] }
    noted := if stale then .message else .nothing }

def saveMessage (source : IMMessage) (senderUserId searchKinds : Nat) (messages : Table IMMessageRow) :
    Option IMMessageRow → Except JsError (Table IMMessageRow × IMMessageRow)
  | none =>
    if messages.rows.any (fun row => row.conversationId = g.conversation.id ∧ row.primaryPlatformMessageId = source.id) then
      .error (.error "duplicate-entry")
    else .ok (messages.insert (g.newMessage source senderUserId searchKinds) (fun _ => rfl),
      g.newMessage source senderUserId searchKinds messages.nextId)
  | some message =>
    let saved := messages.set (fun row => row.id = message.id)
      (writeMessage g.reader source senderUserId searchKinds (Json.spread message.metadata (messageMetadata source)))
      (fun _ => rfl)
    match saved.first (fun row => row.id = message.id) with
    | some row => .ok (saved, row)
    | none     => .error (.error "message disappeared during ingestion")

def projecting (source : IMMessage) (message : IMMessageRow) (media : List IMMediaRow) : Projecting :=
  { platformSessionId := g.session.platformSessionId, conversationId := g.conversation.id, messageId := message.id
    scope := projectionScope g.session.platformSessionId g.conversation
    nativeSequence := qqMessageSequenceFromMetadata message.metadata
    nativeOrderKey := source.nativeOrderKey
    plan := g.reader.plan g.session g.conversation source g.allocation
      (defaultPlan (g.reader.isArticleMessage source) media)
    media := media, timestamp := message.timestamp, allocation := g.allocation }

def writeStored (source : IMMessage) (senderUserId searchKinds : Nat) (stored : Option IMMessageRow) (changed : Bool)
    (t : MessageTables) (cache : List (String × Int)) : Except JsError StoredMessage := do
  let (messages, message) ← g.saveMessage source senderUserId searchKinds t.messages stored
  let aliases := upsertAliases g.session.platformSessionId g.conversation.id message.id 0 source.allSourceIds t.aliases
  let (media, storedMedia) := storeMedia message.id 0 (mediaOf source) t.media
  let t := { t with messages := messages, aliases := aliases, media := media }
  let ((t, cache), projected) ← (g.projecting source message storedMedia).ensureProjection t cache
  return {
    tables := replaceReactions t message.id source.reactionContext
    cache := cache
    result := {
      message := message, created := stored.isNone, changed := changed, projection := projected.projection
      addedTlMessageIds := projected.addedTlMessageIds, removedTlMessageIds := projected.removedTlMessageIds }
    noted := .written }

/-- `_ingestMessage` from the look-ups on. -/
def settle (source : IMMessage) (senderUserId : Nat) (existingAlias : Option IMMessageAliasRow)
    (message : Option IMMessageRow) (projectionOf : Nat → Option (List TlMessagePartRow)) (t : MessageTables)
    (cache : List (String × Int)) : Except JsError StoredMessage :=
  let searchKinds := g.reader.messageSearchKinds source (t.searchContext g.session g.conversation source)
  match message with
  | some stored =>
    let changed := isChanged g.reader source senderUserId stored
    if existingAlias.isSome ∧ stored.deleted = false ∧ changed = false then
      .ok (g.keepMessage source stored searchKinds projectionOf t cache)
    else g.writeStored source senderUserId searchKinds (some stored) changed t cache
  | none => g.writeStored source senderUserId searchKinds none true t cache

end Ingesting

structure Ingestion where
  db : Database
  cache : List (String × Int)
  prefetch : Option HistoryIngestPrefetch

def HistoryIngestPrefetch.note (prefetch : HistoryIngestPrefetch) (source : IMMessage) (noted : Noted)
    (result : IngestResult) : HistoryIngestPrefetch :=
  match noted with
  | .nothing => prefetch
  | .message => { prefetch with messagesById := Maps.set prefetch.messagesById result.message.id result.message }
  | .written => { prefetch with
      messagesById := Maps.set prefetch.messagesById result.message.id result.message
      messagesByPrimaryId := source.allSourceIds.foldl (fun m id => Maps.set m id result.message)
        prefetch.messagesByPrimaryId
      projectionsByMessageId := Maps.set prefetch.projectionsByMessageId result.message.id result.projection }

namespace Ingesting

variable (g : Ingesting)

def resolveUsers (w : Ingestion) (source : IMMessage) : Table IMUserRow × IMUserRow :=
  match w.prefetch with
  | some prefetch =>
    match Maps.get prefetch.usersByPlatformId source.senderId with
    | some row => (w.db.users, row)
    | none     => upsertUser w.db.users g.session.platformId source.senderId
  | none =>
    let sender := upsertUser w.db.users g.session.platformId source.senderId
    (upsertUsers sender.1 g.session.platformId ((referencedUserIds source).filter (fun id => id ≠ source.senderId)),
      sender.2)

/-- `_ingestMessage`. -/
def ingestMessage (w : Ingestion) (source : IMMessage) : Except JsError (Ingestion × IngestResult) := do
  let (users, sender) := g.resolveUsers w source
  let t := w.db.tables
  let (existing, message) := match w.prefetch with
    | some prefetch => (prefetch.findAlias source, prefetch.findMessage source (prefetch.findAlias source))
    | none          =>
      let existing := t.findAlias g.session.platformSessionId g.conversation.id source
      (existing, t.findMessage g.session.platformSessionId g.conversation.id source existing)
  let projectionOf := fun id => w.prefetch.bind (fun prefetch => Maps.get prefetch.projectionsByMessageId id)
  let settled ← g.settle source sender.id existing message projectionOf t w.cache
  return ({
    db := { w.db with users := users, tables := settled.tables }
    cache := settled.cache
    prefetch := w.prefetch.map (fun prefetch => prefetch.note source settled.noted settled.result) }, settled.result)

def ingestEach : Ingestion → List IMMessage → Except JsError (Ingestion × List IngestResult)
  | w, []                => .ok (w, [])
  | w, source :: sources => do
    let (w, result) ← g.ingestMessage w source
    let (w, results) ← ingestEach w sources
    return (w, result :: results)

end Ingesting

/-! ## A batch's maps -/

def batchUserIds (sources : List IMMessage) : List String :=
  sources.flatMap (fun source =>
    source.senderId :: (referencedUserIds source).filter (fun id => id ≠ source.senderId))

def keyed {κ α : Type} [DecidableEq κ] (key : α → κ) (rows : List α) : List (κ × α) :=
  Maps.ofList (rows.map (fun row => (key row, row)))

def groupByMessageId (parts : Table TlMessagePartRow) (messageIds : List Nat) : List (Nat × List TlMessagePartRow) :=
  messageIds.filterMap (fun id => if partsOf parts id = [] then none else some (id, partsOf parts id))

/-- `_upsertMessageUsers`: users that have a row come first and keep it, the new ones follow in order. -/
def upsertMessageUsers (users : Table IMUserRow) (platformId : String) (sources : List IMMessage) :
    Table IMUserRow × List (String × IMUserRow) :=
  let inputs := Maps.distinct (batchUserIds sources)
  let existing := (users.get (fun row => row.platformId = platformId ∧ row.platformUserId ∈ inputs)).map
    (fun row => row.platformUserId)
  let merged := Maps.distinct (existing ++ inputs)
  let stored := upsertUsers users platformId merged
  (stored, keyed (fun row => row.platformUserId)
    (stored.get (fun row => row.platformId = platformId ∧ row.platformUserId ∈ inputs)))

/-- `_prefetchHistoryIngest` after the users. -/
def prefetchHistoryIngest (t : MessageTables) (platformSessionId : String) (conversationId : Nat)
    (sources : List IMMessage) (usersByPlatformId : List (String × IMUserRow)) : HistoryIngestPrefetch :=
  let sourceIds := Maps.distinct (sources.flatMap (fun source => source.id :: source.sourceIds))
  let aliases := t.aliases.get (fun row => row.platformSessionId = platformSessionId ∧
    row.conversationId = conversationId ∧ row.platformMessageId ∈ sourceIds)
  let aliasesByPlatformId := keyed (fun row => row.platformMessageId) aliases
  let aliasedMessageIds := Maps.distinct (aliases.map (fun row => row.messageId))
  let unresolvedPrimaryIds := (sources.filter (fun source =>
    !(source.id :: source.sourceIds).any (Maps.has aliasesByPlatformId))).map (fun source => source.id)
  let messages := t.messages.get (fun row => row.id ∈ aliasedMessageIds)
    ++ t.messages.get (fun row => row.platformSessionId = platformSessionId ∧
      row.conversationId = conversationId ∧ row.primaryPlatformMessageId ∈ unresolvedPrimaryIds)
  { usersByPlatformId := usersByPlatformId
    aliasesByPlatformId := aliasesByPlatformId
    messagesById := keyed (fun row => row.id) messages
    messagesByPrimaryId := keyed (fun row => row.primaryPlatformMessageId) messages
    projectionsByMessageId := groupByMessageId t.parts (Maps.distinct (messages.map (fun row => row.id))) }

/-! ## The operations -/

def mismatched (conversation : IMConversation) (sources : List IMMessage) : Bool :=
  sources.any (fun source => source.conversationId ≠ conversation.id)

def mismatchError : JsError := .error "message conversation does not match ingestion target"

def startIngestion (db : Database) (session : PlatformSession) (conversation : IMConversationRow)
    (sources : List IMMessage) (allocation : Allocation) : Ingestion :=
  if allocation = .history ∧ 1 < sources.length then
    let users := upsertMessageUsers db.users session.platformId sources
    { db := { db with users := users.1 }, cache := [],
      prefetch := some (prefetchHistoryIngest db.tables session.platformSessionId conversation.id sources users.2) }
  else { db := db, cache := [], prefetch := none }

def ingestMany (reader : MessageReader) (db : Database) (session : PlatformSession) (conversation : IMConversation)
    (sources : List IMMessage) (allocation : Allocation) : Except JsError (Database × List IngestResult) :=
  if mismatched conversation sources then .error mismatchError
  else if sources = [] then .ok (db, [])
  else
    let (db, row) := upsertConversation db session conversation none
    let g : Ingesting := { reader := reader, session := session, conversation := row, allocation := allocation }
    (g.ingestEach (startIngestion db session row sources allocation) sources).map (fun out => (out.1.db, out.2))

def ingest (reader : MessageReader) (db : Database) (session : PlatformSession) (conversation : IMConversation)
    (source : IMMessage) (allocation : Allocation) : Except JsError (Database × List IngestResult) :=
  ingestMany reader db session conversation [source] allocation

structure IMDialog where
  conversation : IMConversation
  unreadCount : Nat
  lastMessage : Option IMMessage
  readInboxMaxMessage : Option IMMessage

def upsertDialogs (conversations : Table IMConversationRow) (session : PlatformSession) (dialogs : List IMDialog) :
    Table IMConversationRow :=
  dialogs.foldl (fun conversations dialog =>
    conversations.upsert (isConversation session.platformSessionId dialog.conversation.id)
      (fun row => { row with
        kind := dialog.conversation.kind, parentPlatformConversationId := dialog.conversation.parentId
        unreadCount := dialog.unreadCount }) (fun _ => rfl)
      (fun id =>
        { id := id, platformSessionId := session.platformSessionId, platformConversationId := dialog.conversation.id,
          kind := dialog.conversation.kind, parentPlatformConversationId := dialog.conversation.parentId,
          unreadCount := dialog.unreadCount, readInboxMaxMessageId := none }) (fun _ => rfl)) conversations

def ingestDialogMessage (reader : MessageReader) (session : PlatformSession) (row : IMConversationRow) (w : Ingestion)
    (allocation : Allocation) : Option IMMessage → Except JsError (Ingestion × List IngestResult)
  | none        => .ok (w, [])
  | some source => do
    let g : Ingesting := { reader := reader, session := session, conversation := row, allocation := allocation }
    let (w, result) ← g.ingestMessage w source
    return (w, [result])

def IMDialog.boundary (dialog : IMDialog) : Option IMMessage :=
  dialog.readInboxMaxMessage.filter (fun m => dialog.lastMessage.map (fun last => last.id) ≠ some m.id)

def ingestDialog (reader : MessageReader) (session : PlatformSession) (w : Ingestion) (dialog : IMDialog) :
    Except JsError (Ingestion × List IngestResult) :=
  match w.db.conversations.first (isConversation session.platformSessionId dialog.conversation.id) with
  | none     => .error (.error "failed to persist conversation")
  | some row => do
    let (w, latest) ← ingestDialogMessage reader session row w .live dialog.lastMessage
    let (w, boundary) ← ingestDialogMessage reader session row w .history dialog.boundary
    let reported := if dialog.readInboxMaxMessage.isSome then if dialog.boundary.isSome then boundary else latest else []
    let readInboxMaxMessageId := (reported.head?.map (fun result => result.message.id)).or row.readInboxMaxMessageId
    let conversations := w.db.conversations.set (fun other => other.id = row.id)
      (fun other => { other with readInboxMaxMessageId := readInboxMaxMessageId }) (fun _ => rfl)
    return ({ w with db := { w.db with conversations := conversations } }, latest ++ boundary)

def ingestEachDialog (reader : MessageReader) (session : PlatformSession) :
    Ingestion → List IMDialog → Except JsError (Ingestion × List IngestResult)
  | w, []                => .ok (w, [])
  | w, dialog :: dialogs => do
    let (w, results) ← ingestDialog reader session w dialog
    let (w, rest) ← ingestEachDialog reader session w dialogs
    return (w, results ++ rest)

def ingestDialogs (reader : MessageReader) (db : Database) (session : PlatformSession) (dialogs : List IMDialog) :
    Except JsError (Database × List IngestResult) :=
  if dialogs.any (fun dialog => mismatched dialog.conversation
      (dialog.lastMessage.toList ++ dialog.readInboxMaxMessage.toList)) then .error mismatchError
  else
    let db := { db with conversations := upsertDialogs db.conversations session dialogs }
    (ingestEachDialog reader session { db := db, cache := [], prefetch := none } dialogs).map
      (fun out => (out.1.db, out.2))

def IMRequest.toJson (request : IMRequest) : Json :=
  .obj ([("details", request.details)] ++ (request.createdAt.map (fun at_ => ("createdAt", at_))).toList)

/-- `_upsertRequest`: a request that left `pending` keeps what it was stored with. -/
def upsertRequest (reader : MessageReader) (requests : Table IMRequestRow) (session : PlatformSession)
    (request : IMRequest) (now : Int) : Table IMRequestRow × IMRequest :=
  let isRow := fun (row : IMRequestRow) =>
    decide (row.platformSessionId = session.platformSessionId ∧ row.request.id = request.id)
  let previous := (requests.first isRow).map (fun row => row.request)
  let createdAt := [previous.bind (fun p => p.createdAt), request.createdAt].findSome? (fun value =>
    if 0 < reader.requestTimestamp value then value else none)
  let base := match previous with
    | some p => if p.state ≠ IMRequestState.pending then p else request
    | none   => request
  let canonical := { base with createdAt := some (createdAt.getD (.num now)) }
  let changed := match previous with
    | some p => p.state ≠ canonical.state || !Json.jsonEquals p.toJson canonical.toJson
    | none   => true
  (if changed then
      requests.upsert isRow (fun row => { row with request := canonical }) (fun _ => rfl)
        (fun id => ⟨id, session.platformSessionId, canonical⟩) (fun _ => rfl)
    else requests, canonical)

def requestInboxConversation : IMConversation := { id := "bridge:request-inbox", kind := .direct }

def ingestRequest (reader : MessageReader) (db : Database) (session : PlatformSession) (request : IMRequest) (now : Int) :
    Except JsError (Database × List IngestResult) := do
  let (requests, stored) := upsertRequest reader db.requests session request now
  let (db, row) := upsertConversation { db with requests := requests } session requestInboxConversation none
  let g : Ingesting := { reader := reader, session := session, conversation := row, allocation := .live }
  let (w, result) ← g.ingestMessage { db := db, cache := [], prefetch := none } (reader.requestInboxMessage stored)
  let unread := fun (other : IMConversationRow) => { other with unreadCount := row.unreadCount + 1 }
  let conversations := if result.created ∧ stored.state = IMRequestState.pending then
      w.db.conversations.set (fun other => other.id = row.id) unread (fun _ => rfl)
    else w.db.conversations
  return ({ w.db with conversations := conversations }, [result])

def aliasedMessages (t : MessageTables) (platformSessionId : String) (conversationId : Nat)
    (platformMessageIds : List String) : List Nat :=
  Maps.distinct ((Maps.distinct platformMessageIds).filterMap (fun id =>
    (t.aliases.first (isAlias platformSessionId conversationId id)).map (fun row => row.messageId)))

def deleteMessages (db : Database) (session : PlatformSession) (conversation : IMConversation)
    (platformMessageIds : List String) : Database :=
  let (db, row) := upsertConversation db session conversation none
  let messageIds := aliasedMessages db.tables session.platformSessionId row.id platformMessageIds
  { db with tables := { db.tables with
      messages := db.tables.messages.set (fun message => message.id ∈ messageIds)
        (fun message => { message with deleted := true }) (fun _ => rfl) } }

inductive StoreOperation
  | ingest (session : PlatformSession) (conversation : IMConversation) (source : IMMessage) (allocation : Allocation)
  | ingestMany (session : PlatformSession) (conversation : IMConversation) (sources : List IMMessage)
      (allocation : Allocation)
  | ingestDialogs (session : PlatformSession) (dialogs : List IMDialog)
  | ingestRequest (session : PlatformSession) (request : IMRequest) (now : Int)
  | deleteMessages (session : PlatformSession) (conversation : IMConversation) (platformMessageIds : List String)

namespace MessageStore

def apply (reader : MessageReader) (db : Database) : StoreOperation → Except JsError (Database × List IngestResult)
  | .ingest session conversation source allocation => ingest reader db session conversation source allocation
  | .ingestMany session conversation sources allocation => ingestMany reader db session conversation sources allocation
  | .ingestDialogs session dialogs => ingestDialogs reader db session dialogs
  | .ingestRequest session request now => ingestRequest reader db session request now
  | .deleteMessages session conversation ids => .ok (deleteMessages db session conversation ids, [])

/-- An operation that throws is rolled back.  The projection plugins may answer differently from one to the next. -/
def step (db : Database) (op : MessageReader × StoreOperation) : Database × Except JsError (List IngestResult) :=
  match apply op.1 db op.2 with
  | .ok (db', results) => (db', .ok results)
  | .error e           => (db, .error e)

end MessageStore

end Crossgram
