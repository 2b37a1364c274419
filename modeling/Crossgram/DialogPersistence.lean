import Crossgram.JsonFields
import Crossgram.ReactionRows
/-!
# DialogPersistence — dialogs with all their columns (packages/bridge/src/message-store.ts, platform-manager.ts)

The columns of a conversation row that MessageRows leaves out, title, space, avatar and metadata, stand beside the
database under the row's id.  `ingestDialogs` writes them with the row and then stores the messages of the dialog.
`dialogNeedsPersistence` compares what the platform reports with the dialog read back, and where it finds no difference
the write does not take place.
-/
namespace Crossgram

/-! ## The conversation of a dialog -/

inductive ConversationRole
  | owner | administrator | member | guest
deriving DecidableEq

def ConversationRole.text : ConversationRole → String
  | .owner         => "owner"
  | .administrator => "administrator"
  | .member        => "member"
  | .guest         => "guest"

/-- `isConversationRole`, with the role. -/
def conversationRole (value : Option Json) : Option ConversationRole :=
  [ConversationRole.owner, .administrator, .member, .guest].find? (fun role => hydratedString value = some role.text)

/-- An `IMConversation` with its profile. -/
structure PlatformConversation extends IMConversation where
  title : String
  spaceId : Option String := none
  avatar : Option Json := none
  selfRole : Option ConversationRole := none
  selfPermissions : Option Json := none
  metadata : JsonObject := []

structure PlatformDialog where
  conversation : PlatformConversation
  unreadCount : Nat
  lastMessage : Option IMMessage := none
  readInboxMaxMessage : Option IMMessage := none

def PlatformDialog.entry (dialog : PlatformDialog) : IMDialog :=
  { conversation := dialog.conversation.toIMConversation, unreadCount := dialog.unreadCount
    lastMessage := dialog.lastMessage, readInboxMaxMessage := dialog.readInboxMaxMessage }

structure ConversationProfile where
  title : String
  spacePlatformId : Option String
  avatar : Option Json
  metadata : JsonObject

def storedSelfRoleKey : String := "__mtprotoRelaySelfRole"

def storedSelfPermissionsKey : String := "__mtprotoRelaySelfPermissions"

def storedConversationRole (metadata : JsonObject) : Option ConversationRole :=
  conversationRole (Json.property (.obj metadata) storedSelfRoleKey)

def legacyConversationRole (metadata : JsonObject) : Option ConversationRole :=
  conversationRole (Json.property (.obj metadata) "qqSelfRole")

def isBoolean : Option Json → Bool
  | some (.bool _) => true
  | _              => false

def requiredPermissions : List String :=
  ["manageConversation", "manageMembers", "deleteAnyMessage", "editAnyMessage", "pinMessages", "inviteMembers"]

def storedConversationPermissions (metadata : JsonObject) : Option Json :=
  (Json.property (.obj metadata) storedSelfPermissionsKey).filter (fun permissions =>
    isRecord permissions && requiredPermissions.all (fun key => isBoolean (permissions.property key))
      && ((permissions.property "manageAdministrators").isNone
        || isBoolean (permissions.property "manageAdministrators")))

def legacyQqConversationPermissions (role : ConversationRole) : Json :=
  let administrator : Bool := role = .owner ∨ role = .administrator
  .obj [("manageConversation", .bool administrator), ("manageMembers", .bool administrator),
    ("deleteAnyMessage", .bool administrator), ("editAnyMessage", .bool administrator),
    ("pinMessages", .bool administrator), ("inviteMembers", .bool (role ≠ .guest)),
    ("manageAdministrators", .bool (role = .owner))]

/-- `if (value) fields[key] = value`. -/
def setGiven (fields : JsonObject) (key : String) : Option Json → JsonObject
  | some value => Json.setField fields key value
  | none       => fields

/-- `conversationMetadata`; metadata that is not there is empty. -/
def conversationMetadata (conversation : PlatformConversation) (existing : JsonObject) : JsonObject :=
  let legacyRole := (legacyConversationRole conversation.metadata).or (legacyConversationRole existing)
  let selfRole := (conversation.selfRole.or (storedConversationRole existing)).or legacyRole
  let selfPermissions := conversation.selfPermissions.or
    (if conversation.selfRole = none then
      (storedConversationPermissions existing).or (legacyRole.map legacyQqConversationPermissions)
    else none)
  setGiven (setGiven (Json.spread [] conversation.metadata) storedSelfRoleKey (selfRole.map (fun role => .str role.text)))
    storedSelfPermissionsKey selfPermissions

def isPublicConversationKey (key : String) : Bool := key ≠ storedSelfRoleKey ∧ key ≠ storedSelfPermissionsKey

/-- `toConversation`. -/
def toConversation (row : IMConversationRow) (profile : ConversationProfile) : PlatformConversation :=
  { id := row.platformConversationId
    kind := row.kind
    parentId := row.parentPlatformConversationId
    title := profile.title
    spaceId := profile.spacePlatformId
    avatar := profile.avatar
    selfRole := (storedConversationRole profile.metadata).or (legacyConversationRole profile.metadata)
    selfPermissions := (storedConversationPermissions profile.metadata).or
      ((legacyConversationRole profile.metadata).map legacyQqConversationPermissions)
    metadata := profile.metadata.filter (fun field => isPublicConversationKey field.1) }

/-! ## Writing -/

structure ConversationStore where
  db : Database
  profiles : Nat → ConversationProfile

/-- The other columns of the values `ingestDialogs` writes. -/
def dialogProfile (conversation : PlatformConversation) (existing : Option ConversationProfile) : ConversationProfile :=
  { title := conversation.title
    spacePlatformId := conversation.spaceId
    avatar := conversation.avatar.or (existing.bind (fun profile => profile.avatar))
    metadata := conversationMetadata conversation ((existing.map (fun profile => profile.metadata)).getD []) }

namespace ConversationStore

variable (s : ConversationStore)

/-- `existingConversations.get(id)`. -/
def existingProfile (session : PlatformSession) (id : String) : Option ConversationProfile :=
  (s.db.conversations.first (isConversation session.platformSessionId id)).map (fun row => s.profiles row.id)

def upsertProfiles (session : PlatformSession) (dialogs : List PlatformDialog) (conversations : Table IMConversationRow) :
    Nat → ConversationProfile :=
  dialogs.foldl (fun profiles dialog =>
    match conversations.first (isConversation session.platformSessionId dialog.conversation.id) with
    | some row => Function.update profiles row.id
        (dialogProfile dialog.conversation (s.existingProfile session dialog.conversation.id))
    | none     => profiles) s.profiles

/-- `MessageStore.ingestDialogs`. -/
def ingestDialogs (reader : MessageReader) (session : PlatformSession) (dialogs : List PlatformDialog) :
    Except JsError (ConversationStore × List IngestResult) :=
  (Crossgram.ingestDialogs reader s.db session (dialogs.map PlatformDialog.entry)).map (fun out =>
    ({ db := out.1
       profiles := s.upsertProfiles session dialogs
        (upsertDialogs s.db.conversations session (dialogs.map PlatformDialog.entry)) }, out.2))

end ConversationStore

/-! ## Reading back -/

def hydratedFlag : Option Json → Bool
  | some (.bool value) => value
  | _                  => false

/-- A message as `hydrateMessage` gives it, its content as the JSON it is kept in. -/
structure LastMessage where
  id : String
  sourceIds : List String
  conversationId : String
  senderId : String
  senderTitle : Option String
  content : Json
  timestamp : Int
  outgoing : Bool
  recalled : Bool
  groupId : Option String
  replyToId : Option String
  metadata : JsonObject
  reactionContext : Option IMReactionContext

structure StoredDialog where
  conversation : PlatformConversation
  unreadCount : Nat
  lastMessage : Option LastMessage
  readInboxMaxMessage : Option LastMessage

/-- `hydrateMessage`. -/
def hydrateLastMessage (db : Database) (conversationId : String) (row : IMMessageRow) : Except JsError LastMessage :=
  match db.users.first (fun user => user.id = row.senderUserId) with
  | none        => .error (.error ("message references missing user " ++ toString row.senderUserId))
  | some sender => .ok
    { id := row.primaryPlatformMessageId
      sourceIds := ((db.tables.aliases.get (fun known => known.messageId = row.id)).insertionSort
        (fun a b => a.ordinal ≤ b.ordinal)).map (fun known => known.platformMessageId)
      conversationId := conversationId
      senderId := sender.platformUserId
      senderTitle := hydratedString (Json.property (.obj row.metadata) storedSenderTitleKey)
      content := row.content
      timestamp := row.timestamp
      outgoing := row.outgoing
      recalled := hydratedFlag (Json.property (.obj row.metadata) storedRecalledKey)
      groupId := row.platformGroupId
      replyToId := hydratedString (Json.property (.obj row.metadata) storedReplyToKey)
      metadata := hydratedMetadata row.metadata
      reactionContext := hydrateReactionContext db.tables.reactions row }

def hydrateOptional (db : Database) (conversationId : String) : Option IMMessageRow → Except JsError (Option LastMessage)
  | none     => .ok none
  | some row => (hydrateLastMessage db conversationId row).map some

/-- `_latestMessagesForConversations`, of one conversation: the latest message that is not deleted. -/
def latestMessage (t : MessageTables) (conversationId : Nat) : Option IMMessageRow :=
  ((t.messages.get (fun row => row.conversationId = conversationId ∧ row.deleted = false)).insertionSort
    (fun a b => b.timestamp < a.timestamp ∨ b.timestamp = a.timestamp ∧ b.id ≤ a.id)).head?

/-- `_hydrateDialogs`, of one conversation. -/
def ConversationStore.hydrateDialog (s : ConversationStore) (row : IMConversationRow) : Except JsError StoredDialog := do
  let lastMessage ← hydrateOptional s.db row.platformConversationId (latestMessage s.db.tables row.id)
  let readInboxMaxMessage ← hydrateOptional s.db row.platformConversationId
    ((row.readInboxMaxMessageId.filter (fun id => 0 < id)).bind s.db.tables.messageById)
  return {
    conversation := toConversation row (s.profiles row.id), unreadCount := row.unreadCount
    lastMessage := lastMessage, readInboxMaxMessage := readInboxMaxMessage }

/-! ## The shortcut -/

/-- The end of `dialogNeedsPersistence`. -/
def lastMessageDiffers : Option IMMessage → Option LastMessage → Bool
  | some upstream, some stored =>
    upstream.id ≠ stored.id
    || upstream.timestamp ≠ stored.timestamp
    || upstream.senderId ≠ stored.senderId
    || !Json.jsonEquals (persistMessageContent upstream.content) stored.content
    || !Json.jsonContains (.obj stored.metadata) (.obj upstream.metadata)
  | none,          none        => false
  | _,             _           => true

def dialogNeedsPersistence (upstream : PlatformDialog) : Option StoredDialog → Bool
  | none        => true
  | some stored =>
    if upstream.unreadCount ≠ stored.unreadCount then true
    else if upstream.conversation.kind ≠ stored.conversation.kind
        ∨ upstream.conversation.title ≠ stored.conversation.title
        ∨ upstream.conversation.parentId ≠ stored.conversation.parentId
        ∨ upstream.conversation.spaceId ≠ stored.conversation.spaceId
        ∨ Json.jsonContains (.obj stored.conversation.metadata) (.obj upstream.conversation.metadata) = false then true
    else lastMessageDiffers upstream.lastMessage stored.lastMessage

end Crossgram
