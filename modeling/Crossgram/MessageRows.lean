import Crossgram.StableJson
/-!
# MessageRows — platform messages and the rows they are stored in (packages/bridge/src/models.ts, platform.ts)

Row ids auto-increment and are naturals; a Telegram message id is an integer.  Timestamps are whole seconds.  Row
creation and update times, user profiles and conversation titles are not modelled: nothing here reads them.
-/
namespace Crossgram

inductive IMConversationKind
  | direct | group | channel
deriving DecidableEq

inductive IMMediaKind
  | image | file
deriving DecidableEq

/-- `details` stands for the fields that are only copied: name, size, preview, locator and the like. -/
structure IMMedia where
  id : String
  kind : IMMediaKind
  details : Json

inductive IMMessagePart
  | text (text : String) (mentions : List String)
  | media (media : IMMedia)
  | other (value : Json)

structure IMMessageContent where
  parts : List IMMessagePart
  rest : Json

structure IMReactionDefinition where
  key : String
  details : Json

structure IMReactionSummary where
  key : String
  count : Nat
  selected : Bool
  selectedOrder : Nat
  recentActors : List String

structure IMReactionContext where
  available : List IMReactionDefinition
  reactions : List IMReactionSummary
  maxSelected : Nat

structure IMMessage where
  id : String
  sourceIds : List String := []
  conversationId : String
  senderId : String
  senderTitle : Option String := none
  content : IMMessageContent
  timestamp : Int
  nativeOrderKey : Option String := none
  outgoing : Bool := false
  recalled : Bool := false
  groupId : Option String := none
  metadata : JsonObject := []
  reactionContext : Option IMReactionContext := none
  replyToId : Option String := none

structure IMConversation where
  id : String
  kind : IMConversationKind
  parentId : Option String := none

structure PlatformSession where
  platformSessionId : String
  platformId : String
  userId : String

/-- `allocation` of `IngestOptions`, `live` by default. -/
inductive Allocation
  | live | history
deriving DecidableEq

structure IMConversationRow where
  id : Nat
  platformSessionId : String
  platformConversationId : String
  kind : IMConversationKind
  parentPlatformConversationId : Option String
  unreadCount : Nat
  readInboxMaxMessageId : Option Nat

structure IMUserRow where
  id : Nat
  platformId : String
  platformUserId : String

structure IMMessageRow where
  id : Nat
  platformSessionId : String
  conversationId : Nat
  primaryPlatformMessageId : String
  senderUserId : Nat
  text : String
  content : Json
  timestamp : Int
  outgoing : Bool
  deleted : Bool
  platformGroupId : Option String
  metadata : JsonObject
  searchText : String
  searchKinds : Option Nat

structure IMMessageAliasRow where
  id : Nat
  platformSessionId : String
  conversationId : Nat
  platformMessageId : String
  messageId : Nat
  ordinal : Nat

structure IMMediaRow where
  id : Nat
  messageId : Nat
  ordinal : Nat
  partIndex : Nat
  platformMediaId : String
  kind : IMMediaKind
  details : Json

structure IMMessageReactionRow where
  id : Nat
  messageId : Nat
  nativeReactionKey : String
  count : Nat
  selected : Bool
  selectedOrder : Nat
  recentActors : List String
  definition : Json

structure TlMessagePartRow where
  id : Nat
  platformSessionId : String
  conversationId : Nat
  messageId : Nat
  mediaId : Option Nat
  scope : String
  tlMessageId : Int
  nativeSequence : Option Nat
  nativeOrderKey : Option String
  allocationVersion : Option Nat
  groupedId : Option String
  ordinal : Nat
deriving DecidableEq

structure IngestResult where
  message : IMMessageRow
  created : Bool
  changed : Bool
  projection : List TlMessagePartRow
  addedTlMessageIds : List Int
  removedTlMessageIds : List Int

end Crossgram
