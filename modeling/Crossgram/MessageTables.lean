import Mathlib.Algebra.Order.Group.Unbundled.Int
import Mathlib.Data.Rat.Cast.Defs
import Crossgram.Lib.Maps
import Crossgram.Lib.Tables
import Crossgram.Lib.Windows
import Crossgram.MessageSlots
/-!
# MessageTables — the tables of the message store (packages/bridge/src/models.ts, message-store.ts)

The tables and the writes that touch one of them: users, conversations, reactions, counters and epochs.  The tables a
message is stored in stand apart (`MessageTables`), since ingestion writes users and conversations only before them.
-/
namespace Crossgram

instance : Row IMUserRow := ⟨IMUserRow.id⟩
instance : Row IMConversationRow := ⟨IMConversationRow.id⟩
instance : Row IMMessageRow := ⟨IMMessageRow.id⟩
instance : Row IMMessageAliasRow := ⟨IMMessageAliasRow.id⟩
instance : Row IMMediaRow := ⟨IMMediaRow.id⟩
instance : Row IMMessageReactionRow := ⟨IMMessageReactionRow.id⟩
instance : Row TlMessagePartRow := ⟨TlMessagePartRow.id⟩

/-- A record of what happened to the part rows, for stating what a run did; not a table. -/
inductive PartEvent
  | resequenced (part : TlMessagePartRow) (nativeSequence : Nat)
  | allocated (conversationId : Nat) (nativeSequence : Option Nat) (request : SlotRequest) (parts : List TlMessagePartRow)

structure MessageTables where
  messages : Table IMMessageRow
  aliases : Table IMMessageAliasRow
  media : Table IMMediaRow
  reactions : Table IMMessageReactionRow
  parts : Table TlMessagePartRow
  epochs : List (String × Int)
  counters : List (String × Nat)
  partEvents : List PartEvent

def MessageTables.empty : MessageTables :=
  { messages := Table.empty, aliases := Table.empty, media := Table.empty, reactions := Table.empty,
    parts := Table.empty, epochs := [], counters := [], partEvents := [] }

inductive IMRequestState
  | pending | accepted | rejected
deriving DecidableEq

/-- `details` stands for the fields that are only copied and compared: kind, requester, group, message, metadata. -/
structure IMRequest where
  id : String
  state : IMRequestState
  details : Json
  createdAt : Option Json

structure IMRequestRow where
  id : Nat
  platformSessionId : String
  request : IMRequest

instance : Row IMRequestRow := ⟨IMRequestRow.id⟩

structure Database where
  users : Table IMUserRow
  conversations : Table IMConversationRow
  requests : Table IMRequestRow
  tables : MessageTables

def Database.empty : Database :=
  { users := Table.empty, conversations := Table.empty, requests := Table.empty, tables := MessageTables.empty }

/-! ## Users and conversations -/

def isUser (platformId platformUserId : String) (row : IMUserRow) : Bool :=
  row.platformId = platformId ∧ row.platformUserId = platformUserId

/-- `_upsertUser`, down to the row's key. -/
def upsertUser (users : Table IMUserRow) (platformId platformUserId : String) : Table IMUserRow × IMUserRow :=
  match users.first (isUser platformId platformUserId) with
  | some existing => (users, existing)
  | none          => (users.insert (fun id => ⟨id, platformId, platformUserId⟩) (fun _ => rfl),
      ⟨users.nextId, platformId, platformUserId⟩)

def upsertUsers (users : Table IMUserRow) (platformId : String) (platformUserIds : List String) : Table IMUserRow :=
  platformUserIds.foldl (fun users id => (upsertUser users platformId id).1) users

def isConversation (platformSessionId platformConversationId : String) (row : IMConversationRow) : Bool :=
  row.platformSessionId = platformSessionId ∧ row.platformConversationId = platformConversationId

/-- `_upsertConversation`: the other party of a direct chat is stored too. -/
def upsertConversation (db : Database) (session : PlatformSession) (conversation : IMConversation)
    (unreadCount : Option Nat) : Database × IMConversationRow :=
  let users := if conversation.kind = .direct then (upsertUser db.users session.platformId conversation.id).1 else db.users
  match db.conversations.first (isConversation session.platformSessionId conversation.id) with
  | some existing =>
    let values := fun (row : IMConversationRow) => { row with
      platformSessionId := session.platformSessionId, platformConversationId := conversation.id,
      kind := conversation.kind, parentPlatformConversationId := conversation.parentId,
      unreadCount := unreadCount.getD existing.unreadCount }
    ({ db with users := users, conversations := db.conversations.set (fun row => row.id = existing.id) values (fun _ => rfl) },
      values existing)
  | none =>
    let row := fun (id : Nat) =>
      { id := id, platformSessionId := session.platformSessionId, platformConversationId := conversation.id,
        kind := conversation.kind, parentPlatformConversationId := conversation.parentId,
        unreadCount := unreadCount.getD 0, readInboxMaxMessageId := none : IMConversationRow }
    ({ db with users := users, conversations := db.conversations.insert row (fun _ => rfl) },
      row db.conversations.nextId)

/-! ## Counters and epochs -/

def allocateIds (counters : List (String × Nat)) (scope : String) (count : Nat) :
    Except JsError (List (String × Nat) × List Nat) :=
  let first := (Maps.get counters scope).getD 1
  let nextId := first + count
  if 0x7fffffff < nextId - 1 then .error (.rangeError ("message ID scope exhausted: " ++ scope))
  else .ok (Maps.set counters scope nextId, (List.range count).map (fun index => first + index))

/-- `_messageIdEpoch`: the stored epochs and the cache of the transaction, read in the other order. -/
def messageIdEpoch (epochs cache : List (String × Int)) (scope : String) (timestamp : Int) :
    Except JsError ((List (String × Int) × List (String × Int)) × Int) :=
  match Maps.get cache scope with
  | some cached => .ok ((epochs, cache), cached)
  | none =>
    match Maps.get epochs scope with
    | some existing => .ok ((epochs, Maps.set cache scope existing), existing)
    | none => do
      let epoch ← initialTimestampMessageIdEpoch timestamp
      return ((Maps.set epochs scope epoch, Maps.set cache scope epoch), epoch)

/-! ## Reactions -/

def IMReactionDefinition.toJson (definition : IMReactionDefinition) : Json :=
  .obj [("key", .str definition.key), ("details", definition.details)]

/-- `definition && typeof definition === 'object' && !Array.isArray(definition)`. -/
def isRecord : Json → Bool
  | .obj _ => true
  | _      => false

def IMReactionContext.summaries (context : IMReactionContext) : List (String × IMReactionSummary) :=
  Maps.ofList ((context.reactions.filter (fun r => 0 < r.count ∨ r.selected ∨ r.recentActors ≠ [])).map
    (fun r => (r.key, r)))

def IMReactionContext.definitions (context : IMReactionContext) (existing : List IMMessageReactionRow) :
    List (String × Json) :=
  existing.foldl (fun definitions row =>
      if !Maps.has definitions row.nativeReactionKey && Maps.has context.summaries row.nativeReactionKey
          && isRecord row.definition then Maps.set definitions row.nativeReactionKey row.definition
      else definitions)
    (Maps.ofList ((context.available.filter (fun d => Maps.has context.summaries d.key)).map (fun d => (d.key, d.toJson))))

def reactionRow (messageId : Nat) (summaries : List (String × IMReactionSummary)) (key : String) (definition : Json)
    (id : Nat) : IMMessageReactionRow :=
  let reaction := Maps.get summaries key
  { id := id, messageId := messageId, nativeReactionKey := key, count := (reaction.map (·.count)).getD 0,
    selected := (reaction.map (·.selected)).getD false, selectedOrder := (reaction.map (·.selectedOrder)).getD 0,
    recentActors := (reaction.map (·.recentActors)).getD [], definition := definition }

def isReaction (messageId : Nat) (key : String) (row : IMMessageReactionRow) : Bool :=
  row.messageId = messageId ∧ row.nativeReactionKey = key

/-- `_replaceReactions`: without a context nothing changes. -/
def replaceReactions (t : MessageTables) (messageId : Nat) : Option IMReactionContext → MessageTables
  | none         => t
  | some context =>
    let summaries := context.summaries
    let definitions := context.definitions (t.reactions.get (fun row => row.messageId = messageId))
    let kept := t.reactions.remove (fun row => row.messageId = messageId ∧ !Maps.has definitions row.nativeReactionKey)
    { t with
      messages := t.messages.set (fun row => row.id = messageId)
        (fun row => { row with metadata := Json.setField row.metadata "reactionMaxSelected" (.num context.maxSelected) })
        (fun _ => rfl)
      reactions := definitions.foldl (fun reactions d =>
        reactions.upsert (isReaction messageId d.1) (fun row => reactionRow messageId summaries d.1 d.2 row.id)
          (fun _ => rfl) (reactionRow messageId summaries d.1 d.2) (fun _ => rfl)) kept }

@[simp] theorem replaceReactions_parts (t : MessageTables) (messageId : Nat) (context : Option IMReactionContext) :
    (replaceReactions t messageId context).parts = t.parts := by
  cases context <;> rfl

@[simp] theorem replaceReactions_partEvents (t : MessageTables) (messageId : Nat) (context : Option IMReactionContext) :
    (replaceReactions t messageId context).partEvents = t.partEvents := by
  cases context <;> rfl

/-! ## Parts -/

def partsOf (parts : Table TlMessagePartRow) (messageId : Nat) : List TlMessagePartRow :=
  (parts.get (fun part => part.messageId = messageId)).insertionSort (fun a b => a.ordinal ≤ b.ordinal)

theorem mem_partsOf {parts : Table TlMessagePartRow} {messageId : Nat} {part : TlMessagePartRow} :
    part ∈ partsOf parts messageId ↔ part ∈ parts.rows ∧ part.messageId = messageId := by
  simp [partsOf, Table.get]

/-- The ids next to a row in the order of `key`: the largest id of the nearest lower key, the smallest of the nearest
higher one.  `usable` says which keys count as one. -/
def neighbourBounds {κ : Type} [LinearOrder κ] (rows : List TlMessagePartRow) (keyOf : TlMessagePartRow → κ)
    (usable : κ → Bool) (key : κ) : IdBounds :=
  let previous := (Windows.window (fun a b => keyOf b ≤ keyOf a) 1 (rows.filter (fun row => keyOf row < key))).head?
  let next := (Windows.window (fun a b => keyOf a ≤ keyOf b) 1 (rows.filter (fun row => key < keyOf row))).head?
  let idsAt := fun (row : TlMessagePartRow) =>
    if usable (keyOf row) then (rows.filter (fun other => keyOf other = keyOf row)).map (fun part => part.tlMessageId) else []
  { lowerExclusive := previous.bind (fun row => (idsAt row).max?)
    upperExclusive := next.bind (fun row => (idsAt row).min?) }

def nativeSequenceBounds (parts : List TlMessagePartRow) (conversationId nativeSequence : Nat) : IdBounds :=
  neighbourBounds (parts.filter (fun part => part.conversationId = conversationId ∧ part.nativeSequence.isSome))
    (fun part => part.nativeSequence.getD 0) (fun _ => true) nativeSequence

def nativeOrderKeyBounds (parts : List TlMessagePartRow) (scope nativeOrderKey : String) : IdBounds :=
  neighbourBounds (parts.filter (fun part => part.scope = scope ∧ part.nativeOrderKey.isSome))
    (fun part => part.nativeOrderKey.getD "") (fun key => key ≠ "") nativeOrderKey

end Crossgram
