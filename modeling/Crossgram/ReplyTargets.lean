import Crossgram.MessageIngest
/-!
# ReplyTargets — stored messages as they are shown, and the ones a reply names (packages/bridge/src/message-store.ts)

A stored message is read back as the row, its aliases and its parts (`hydrateMessage`).  A reply names its target by
platform id, by QQ sequence or by Telegram id; each is looked up in the conversation of the reply, and a QQ notice gives
way to the message it is attached to.  The JSON of a row's content is used as the content it was written from; `contentOf`
stands for that cast.
-/
namespace Crossgram

open Option

/-! ## Content -/

/-- `type` of an entity, with what only that type has. -/
inductive TextEntityType
  | mention (userId : String)
  | bold | italic | underline | strikethrough | code | blockquote
  | pre (language : Option String)
  | textLink (url : String)
  | customEmoji (definition : IMReactionDefinition) (isCustom : Bool)
  | conversationLink (conversationId : String)

structure IMTextEntity where
  type : TextEntityType
  offset : Int
  length : Int

inductive IMCardKind
  | miniApp | link | music | contact | location | application

/-- `url` is there when `cardUrl` accepts it; `details` stands for the fields that are only copied. -/
structure IMMessageCard where
  kind : IMCardKind
  source : Option String
  url : Option String
  details : Json

inductive HydratedPart
  | text (text : String) (entities : List IMTextEntity)
  | media (platformMediaId : String)
  | sticker (sticker : Json)
  | card (card : IMMessageCard)
  | messageBundle (bundle : Json)

structure HydratedContent where
  parts : List HydratedPart
  serviceAction : Option Json := none
  richMarkdown : Option String := none

/-- `hydrateMessage`, without the reactions and the sender's profile. -/
structure HydratedMessage where
  id : String
  sourceIds : List String
  conversationId : String
  senderId : String
  senderTitle : Option String
  content : HydratedContent
  timestamp : Int
  outgoing : Bool
  recalled : Bool
  replyToId : Option String
  metadata : JsonObject

def isServiceMessage (message : HydratedMessage) : Bool := message.content.serviceAction.isSome

def messageMentionsUser (message : HydratedMessage) (userId : String) : Bool :=
  message.content.parts.any (fun part => match part with
    | .text _ entities => entities.any (fun entity => match entity.type with
      | .mention mentioned => decide (mentioned = userId)
      | _                  => false)
    | _                => false)

def qqReplySequenceFromMetadata (metadata : JsonObject) : Option Nat :=
  (positiveSequence (Json.property (.obj metadata) "qqReplyToMsgSeq")).or
    (if (Json.property (.obj metadata) "qqMsgSeq").isSome then
      positiveSequence (Json.property (.obj metadata) "telegramReplyToMessageId")
    else none)

def positiveInt32 : Option Json → Option Int
  | some (.num value) => if value.den = 1 ∧ 0 < value.num ∧ value.num ≤ 0x7fffffff then some value.num else none
  | _                 => none

def telegramReplyToMessageId (message : HydratedMessage) : Option Int :=
  positiveInt32 (Json.property (.obj message.metadata) "telegramReplyToMessageId")

/-- `replyToId`, when it is not empty. -/
def HydratedMessage.repliesTo (message : HydratedMessage) : Option String :=
  message.replyToId.filter (fun id => id ≠ "")

/-! ## Reading a message back -/

def hydratedString : Option Json → Option String
  | some (.str value) => some value
  | _                 => none

def hydratedMetadata (metadata : JsonObject) : JsonObject :=
  metadata.filter (fun field => field.1 ≠ storedReplyToKey ∧ field.1 ≠ storedSenderTitleKey ∧ field.1 ≠ storedRecalledKey)

section Store

variable (contentOf : Json → HydratedContent)

def hydrateMessage (db : Database) (row : IMMessageRow) : HydratedMessage :=
  { id := row.primaryPlatformMessageId
    sourceIds := ((db.tables.aliases.get (fun known => known.messageId = row.id)).insertionSort
      (fun a b => a.ordinal ≤ b.ordinal)).map (fun known => known.platformMessageId)
    conversationId := ((db.conversations.first (fun conversation => conversation.id = row.conversationId)).map
      (fun conversation => conversation.platformConversationId)).getD ""
    senderId := ((db.users.first (fun user => user.id = row.senderUserId)).map (fun user => user.platformUserId)).getD ""
    senderTitle := hydratedString (Json.property (.obj row.metadata) storedSenderTitleKey)
    content := contentOf row.content
    timestamp := row.timestamp
    outgoing := row.outgoing
    recalled := match Json.property (.obj row.metadata) storedRecalledKey with
      | some (.bool recalled) => recalled
      | _                     => false
    replyToId := hydratedString (Json.property (.obj row.metadata) storedReplyToKey)
    metadata := hydratedMetadata row.metadata }

structure ProjectedMessage where
  source : HydratedMessage
  parts : List TlMessagePartRow
  media : List IMMediaRow

def projectedMessage (db : Database) (messageId : Nat) : Option ProjectedMessage :=
  ((db.tables.messageById messageId).filter (fun row => row.deleted = false)).map (fun row =>
    { source := hydrateMessage contentOf db row
      parts := partsOf db.tables.parts row.id
      media := (db.tables.media.get (fun media => media.messageId = row.id)).insertionSort (fun a b => a.ordinal ≤ b.ordinal) })

/-! ## Looking a target up -/

def findProjectedByTlId (db : Database) (platformSessionId : String) (tlMessageId : Int) (platformConversationId : String) :
    Option ProjectedMessage :=
  (db.conversations.first (isConversation platformSessionId platformConversationId)).bind (fun conversation =>
    (db.tables.parts.first (fun part => part.platformSessionId = platformSessionId ∧ part.tlMessageId = tlMessageId ∧
      part.conversationId = conversation.id)).bind (fun part => projectedMessage contentOf db part.messageId))

def sequenceCandidates (db : Database) (platformSessionId : String) (conversationId nativeSequence : Nat) :
    List (TlMessagePartRow × IMMessageRow) :=
  let parts := db.tables.parts.get (fun part => part.platformSessionId = platformSessionId ∧
    part.conversationId = conversationId ∧ part.nativeSequence = some nativeSequence)
  let rows := parts.filterMap (fun part =>
    ((db.tables.messageById part.messageId).filter (fun row => row.deleted = false)).map (fun row => (part, row)))
  let notice := fun (row : IMMessageRow) => if (contentOf row.content).serviceAction.isSome then 1 else 0
  rows.insertionSort (fun a b => notice a.2 < notice b.2 ∨ (notice a.2 = notice b.2 ∧
    (a.1.ordinal < b.1.ordinal ∨ (a.1.ordinal = b.1.ordinal ∧ a.1.id ≤ b.1.id))))

def findProjectedByNativeSequence (db : Database) (platformSessionId platformConversationId : String)
    (nativeSequence : Nat) : Option ProjectedMessage :=
  (db.conversations.first (isConversation platformSessionId platformConversationId)).bind (fun conversation =>
    (sequenceCandidates contentOf db platformSessionId conversation.id nativeSequence).head?.bind (fun candidate =>
      projectedMessage contentOf db candidate.2.id))

def findProjectedByPlatformId (db : Database) (platformSessionId platformConversationId platformMessageId : String) :
    Option ProjectedMessage :=
  (db.conversations.first (isConversation platformSessionId platformConversationId)).bind (fun conversation =>
    (db.tables.aliases.first (isAlias platformSessionId conversation.id platformMessageId)).bind (fun known =>
      projectedMessage contentOf db known.messageId))

def preferContentReplyTarget (db : Database) (platformSessionId : String) (projected : ProjectedMessage) :
    ProjectedMessage :=
  if isServiceMessage projected.source = false then projected
  else
    match qqMessageSequenceFromMetadata projected.source.metadata with
    | none                => projected
    | some nativeSequence =>
      match findProjectedByNativeSequence contentOf db platformSessionId projected.source.conversationId nativeSequence with
      | some sibling => if isServiceMessage sibling.source then projected else sibling
      | none         => projected

def findReplyTarget (db : Database) (platformSessionId : String) (source : HydratedMessage) : Option ProjectedMessage :=
  ((source.repliesTo.bind (fun id => findProjectedByPlatformId contentOf db platformSessionId source.conversationId id)).map
      (preferContentReplyTarget contentOf db platformSessionId)).or
    (((qqReplySequenceFromMetadata source.metadata).bind (fun nativeSequence =>
        findProjectedByNativeSequence contentOf db platformSessionId source.conversationId nativeSequence)).or
      ((telegramReplyToMessageId source).bind (fun tlMessageId =>
        findProjectedByTlId contentOf db platformSessionId tlMessageId source.conversationId)))

/-! ## An answer is a message of the conversation -/

structure Filed (db : Database) : Prop where
  parts : ∀ part ∈ db.tables.parts.rows, ∀ row ∈ db.tables.messages.rows, row.id = part.messageId →
    row.conversationId = part.conversationId
  aliases : ∀ known ∈ db.tables.aliases.rows, ∀ row ∈ db.tables.messages.rows, row.id = known.messageId →
    row.conversationId = known.conversationId

theorem filed_empty : Filed Database.empty where
  parts := fun _ h => by cases h
  aliases := fun _ h => by cases h

variable {contentOf} {db : Database} {s c : String} {projected : ProjectedMessage}

theorem projectedMessage_eq_some {messageId : Nat} (h : projectedMessage contentOf db messageId = some projected) :
    ∃ row ∈ db.tables.messages.rows, row.id = messageId ∧ projected.source = hydrateMessage contentOf db row ∧
      projected.parts = partsOf db.tables.parts messageId := by
  obtain ⟨row, hrow, rfl⟩ := map_eq_some_iff.1 h
  obtain ⟨hfirst, -⟩ := filter_eq_some_iff.1 hrow
  obtain ⟨hmem, hid⟩ := Table.mem_of_first hfirst
  have hid : row.id = messageId := of_decide_eq_true hid
  exact ⟨row, hmem, hid, rfl, by rw [← hid]⟩

theorem conversationId_hydrate {conversation : IMConversationRow} {row : IMMessageRow}
    (h : db.conversations.first (isConversation s c) = some conversation) (hrow : row.conversationId = conversation.id) :
    (hydrateMessage contentOf db row).conversationId = c := by
  obtain ⟨hmem, hconv⟩ := Table.mem_of_first h
  have hid : db.conversations.first (fun known => known.id = row.conversationId) = some conversation := by
    rw [hrow]
    exact Table.first_id_of_mem hmem
  simp only [isConversation, decide_eq_true_eq] at hconv
  simp only [hydrateMessage, hid, map_some, getD_some]
  exact hconv.2

theorem conversationId_of_tlId (hf : Filed db) {tlMessageId : Int}
    (h : findProjectedByTlId contentOf db s tlMessageId c = some projected) :
    projected.source.conversationId = c ∧ ∃ part ∈ projected.parts, part.tlMessageId = tlMessageId := by
  obtain ⟨conversation, hc, h⟩ := bind_eq_some_iff.1 h
  obtain ⟨part, hp, h⟩ := bind_eq_some_iff.1 h
  obtain ⟨hpart, hfound⟩ := Table.mem_of_first hp
  simp only [decide_eq_true_eq] at hfound
  obtain ⟨row, hrow, hid, hsource, hparts⟩ := projectedMessage_eq_some h
  have hfiled := (hf.parts part hpart row hrow hid).trans hfound.2.2
  rw [hsource, hparts]
  exact ⟨conversationId_hydrate hc hfiled, part, mem_partsOf.2 ⟨hpart, rfl⟩, hfound.2.1⟩

theorem conversationId_of_nativeSequence (hf : Filed db) {nativeSequence : Nat}
    (h : findProjectedByNativeSequence contentOf db s c nativeSequence = some projected) :
    projected.source.conversationId = c := by
  obtain ⟨conversation, hc, h⟩ := bind_eq_some_iff.1 h
  obtain ⟨⟨part, row⟩, hcand, h⟩ := bind_eq_some_iff.1 h
  have hmem : (part, row) ∈ sequenceCandidates contentOf db s conversation.id nativeSequence :=
    List.mem_of_mem_head? (mem_def.2 hcand)
  unfold sequenceCandidates at hmem
  obtain ⟨part', hpart, hlive⟩ := List.mem_filterMap.1 ((List.mem_insertionSort _).1 hmem)
  obtain ⟨row', hkept, heq⟩ := map_eq_some_iff.1 hlive
  obtain ⟨rfl, rfl⟩ := Prod.mk.inj heq
  obtain ⟨hfirst, -⟩ := filter_eq_some_iff.1 hkept
  obtain ⟨hmessage, hrowId⟩ := Table.mem_of_first hfirst
  have hrowId : row'.id = part'.messageId := of_decide_eq_true hrowId
  obtain ⟨hpart, hfound⟩ := List.mem_filter.1 hpart
  simp only [decide_eq_true_eq] at hfound
  obtain ⟨found, hfoundMem, hfoundId, hsource, -⟩ := projectedMessage_eq_some h
  have hsame : found = row' := Table.eq_of_id hfoundMem hmessage hfoundId
  rw [hsource, hsame]
  exact conversationId_hydrate hc ((hf.parts part' hpart row' hmessage hrowId).trans hfound.2.1)

theorem conversationId_of_platformId (hf : Filed db) {platformMessageId : String}
    (h : findProjectedByPlatformId contentOf db s c platformMessageId = some projected) :
    projected.source.conversationId = c := by
  obtain ⟨conversation, hc, h⟩ := bind_eq_some_iff.1 h
  obtain ⟨known, hk, h⟩ := bind_eq_some_iff.1 h
  obtain ⟨hknown, hfound⟩ := Table.mem_of_first hk
  simp only [isAlias, decide_eq_true_eq] at hfound
  obtain ⟨row, hrow, hid, hsource, -⟩ := projectedMessage_eq_some h
  rw [hsource]
  exact conversationId_hydrate hc ((hf.aliases known hknown row hrow hid).trans hfound.2.1)

theorem conversationId_preferred (hf : Filed db) :
    (preferContentReplyTarget contentOf db s projected).source.conversationId = projected.source.conversationId := by
  unfold preferContentReplyTarget
  split
  · rfl
  · split
    · rfl
    · split
      · rename_i sibling hsibling
        split
        · rfl
        · exact conversationId_of_nativeSequence hf hsibling
      · rfl

/-- **A reply's target is a message of the conversation of the reply.** -/
theorem conversationId_of_replyTarget (hf : Filed db) {source : HydratedMessage}
    (h : findReplyTarget contentOf db s source = some projected) : projected.source.conversationId = source.conversationId := by
  unfold findReplyTarget at h
  rcases or_eq_some_iff.1 h with h | ⟨-, h⟩
  · obtain ⟨found, hfound, rfl⟩ := map_eq_some_iff.1 h
    obtain ⟨id, -, hfound⟩ := bind_eq_some_iff.1 hfound
    exact (conversationId_preferred hf).trans (conversationId_of_platformId hf hfound)
  · rcases or_eq_some_iff.1 h with h | ⟨-, h⟩
    · obtain ⟨nativeSequence, -, h⟩ := bind_eq_some_iff.1 h
      exact conversationId_of_nativeSequence hf h
    · obtain ⟨tlMessageId, -, h⟩ := bind_eq_some_iff.1 h
      exact (conversationId_of_tlId hf h).1

end Store

end Crossgram
