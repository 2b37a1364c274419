import Crossgram.SettledMessages
/-!
# DialogShortcut — a dialog that is not written, and what writing it would have changed
(packages/bridge/src/platform-manager.ts, message-store.ts)

`dialogNeedsPersistence` looks at some of what `ingestDialogs` writes: not at the avatar, the read boundary, or what the
last message says of being outgoing, recalled, a reply or reacted to, and at metadata only as far as the platform reports
it.  `Covered` is when nothing else differs either; then the write changes nothing that is seen of the dialog.
-/
namespace Crossgram

open Option List
open Results (bind_ok)

/-! ## Look-ups -/

namespace MessageTables

variable (t : MessageTables) (session : PlatformSession) (conversationId : Nat) (source : IMMessage)

def known : Option IMMessageRow :=
  t.findMessage session.platformSessionId conversationId source
    (t.findAlias session.platformSessionId conversationId source)

def rowIdOf : Nat := ((t.known session conversationId source).map (fun row => row.id)).getD t.messages.nextId

def leaves (reader : MessageReader) (users : Table IMUserRow) : Bool :=
  (t.known session conversationId source).any (fun row =>
    staysAsIs reader source (upsertUser users session.platformId source.senderId).2.id
      (t.findAlias session.platformSessionId conversationId source) row)

def told (reader : MessageReader) (users : Table IMUserRow) : Option IMMessage → MessageTables
  | none      => t
  | some last => { t with
      aliases := if t.leaves session conversationId last reader users then t.aliases
        else upsertAliases session.platformSessionId conversationId (t.rowIdOf session conversationId last) 0
          last.allSourceIds t.aliases }

end MessageTables

/-! ## What is claimed of a dialog, and when it holds -/

@[ext] structure ConversationView where
  kind : IMConversationKind
  title : String
  parentId : Option String
  spaceId : Option String
  avatar : Option Json
  metadata : String → Option Json
  unreadCount : Nat
  readInboxMaxMessageId : Option Nat

def ConversationStore.conversationView (s : ConversationStore) (row : IMConversationRow) : ConversationView :=
  let conversation := toConversation row (s.profiles row.id)
  { kind := conversation.kind, title := conversation.title, parentId := conversation.parentId
    spaceId := conversation.spaceId, avatar := conversation.avatar.map Json.canonical
    metadata := fun key => (Json.property (.obj conversation.metadata) key).map Json.canonical
    unreadCount := row.unreadCount, readInboxMaxMessageId := row.readInboxMaxMessageId }

structure KeepsDialog (s s' : ConversationStore) (row : IMConversationRow) : Prop where
  conversation : ∃ row', s'.db.conversations.first (fun other => other.id = row.id) = some row' ∧
    s'.conversationView row' = s.conversationView row
  lastMessage : ∀ m, latestMessage s.db.tables row.id = some m → ∃ m', s'.db.tables.messageById m.id = some m' ∧
    messageView s'.db.users s'.db.tables m' = messageView s.db.users s.db.tables m

section Covered

variable (reader : MessageReader) (session : PlatformSession) (s : ConversationStore) (row : IMConversationRow)
  (dialog : PlatformDialog)

def lastIn (m : IMMessageRow) : Bool :=
  dialog.lastMessage.any (fun last => decide (s.db.tables.rowIdOf session row.id last = m.id))

def boundaryIn (m : IMMessageRow) : Bool :=
  dialog.entry.boundary.any (fun read => decide
    ((s.db.tables.told session row.id reader s.db.users dialog.lastMessage).rowIdOf session row.id read = m.id))

/-- **The dialog says nothing else of what it would write than what is stored.** -/
structure Covered : Prop where
  avatar : ∀ avatar, dialog.conversation.avatar = some avatar →
    (s.profiles row.id).avatar.map Json.canonical = some avatar.canonical
  metadata : ∀ key, isPublicConversationKey key = true →
    (Json.property (.obj (s.profiles row.id).metadata) key).map Json.canonical =
      (Json.property (.obj (Json.spread [] dialog.conversation.metadata)) key).map Json.canonical
  readToLast : ∀ last, dialog.lastMessage = some last → dialog.readInboxMaxMessage.isSome = true →
    dialog.entry.boundary = none → row.readInboxMaxMessageId = some (s.db.tables.rowIdOf session row.id last)
  readTo : ∀ read, dialog.entry.boundary = some read → row.readInboxMaxMessageId =
    some ((s.db.tables.told session row.id reader s.db.users dialog.lastMessage).rowIdOf session row.id read)
  last : ∀ m last, latestMessage s.db.tables row.id = some m → dialog.lastMessage = some last →
    lastIn session s row dialog m = true →
    Agrees (s.db.tables.leaves session row.id last reader s.db.users) last (messageView s.db.users s.db.tables m)
  read : ∀ m read, latestMessage s.db.tables row.id = some m → dialog.entry.boundary = some read →
    boundaryIn reader session s row dialog m = true →
    Agrees (!lastIn session s row dialog m &&
      (s.db.tables.told session row.id reader s.db.users dialog.lastMessage).leaves session row.id read reader s.db.users)
      read (messageView s.db.users s.db.tables m)

def ToldTwice : Prop :=
  ∃ m, latestMessage s.db.tables row.id = some m ∧ lastIn session s row dialog m = true ∧
    boundaryIn reader session s row dialog m = true

end Covered

/-! ## Users -/

section Users

variable {users users' : Table IMUserRow} {platformId platformUserId : String}

theorem first_of_grown {q : IMUserRow → Bool} {user : IMUserRow} (h : users.rows <+: users'.rows)
    (hfound : users.first q = some user) : users'.first q = some user := by
  obtain ⟨more, hmore⟩ := h
  unfold Table.first at hfound ⊢
  rw [← hmore, find?_append, hfound]
  rfl

theorem upsertUser_grown : users.rows <+: (upsertUser users platformId platformUserId).1.rows := by
  unfold upsertUser
  split
  · exact prefix_rfl
  · exact ⟨_, rfl⟩

theorem upsertUser_row (users : Table IMUserRow) (platformId platformUserId : String) :
    (upsertUser users platformId platformUserId).2 ∈ (upsertUser users platformId platformUserId).1.rows ∧
    (upsertUser users platformId platformUserId).2.platformUserId = platformUserId := by
  unfold upsertUser
  split
  · rename_i existing hfound
    obtain ⟨hmem, hkey⟩ := Table.mem_of_first hfound
    have hkey : existing.platformId = platformId ∧ existing.platformUserId = platformUserId := of_decide_eq_true hkey
    exact ⟨hmem, hkey.2⟩
  · exact ⟨Table.mem_insert.2 (Or.inr rfl), rfl⟩

theorem upsertUsers_grown (platformId : String) : ∀ (ids : List String) (users : Table IMUserRow),
    users.rows <+: (upsertUsers users platformId ids).rows
  | [],      _     => prefix_rfl
  | id :: l, users => upsertUser_grown.trans (upsertUsers_grown platformId l (upsertUser users platformId id).1)

theorem senderOf_of_grown {row : IMMessageRow} (h : users.rows <+: users'.rows)
    (hs : (senderOf users row).isSome = true) :
    senderOf users' row = senderOf users row := by
  unfold senderOf at hs ⊢
  rw [isSome_map] at hs
  obtain ⟨user, huser⟩ := isSome_iff_exists.1 hs
  rw [first_of_grown h huser, huser]

theorem staysAsIs_of_grown {reader : MessageReader} {source : IMMessage} {existing : Option IMMessageAliasRow}
    {row : IMMessageRow} (h : users.rows <+: users'.rows) (hs : (senderOf users row).isSome = true) :
    staysAsIs reader source (upsertUser users' platformId source.senderId).2.id existing row =
      staysAsIs reader source (upsertUser users platformId source.senderId).2.id existing row := by
  unfold senderOf at hs
  rw [isSome_map] at hs
  obtain ⟨user, huser⟩ := isSome_iff_exists.1 hs
  obtain ⟨hmem, hid⟩ := Table.mem_of_first huser
  have hid : user.id = row.senderUserId := of_decide_eq_true hid
  have hmem' : user ∈ users'.rows := h.subset hmem
  cases hfound : users.first (isUser platformId source.senderId) with
  | some known =>
    have hfound' : users'.first (isUser platformId source.senderId) = some known := first_of_grown h hfound
    simp only [upsertUser, hfound, hfound']
  | none =>
    -- the sender has no row yet, so the row has another sender either way
    have hnew : ∀ id, row.senderUserId ≠ id → staysAsIs reader source id existing row = false := fun id hne => by
      cases hdeleted : row.deleted with
      | true => simp [staysAsIs, hdeleted]
      | false => simp [staysAsIs, isChanged, hdeleted, hne]
    have hfresh : row.senderUserId ≠ (upsertUser users platformId source.senderId).2.id := by
      simp only [upsertUser, hfound]
      rw [← hid]
      exact Nat.ne_of_lt (users.idsFresh user hmem)
    have hfresh' : row.senderUserId ≠ (upsertUser users' platformId source.senderId).2.id := by
      cases hfound' : users'.first (isUser platformId source.senderId) with
      | none =>
        simp only [upsertUser, hfound']
        rw [← hid]
        exact Nat.ne_of_lt (users'.idsFresh user hmem')
      | some known =>
        simp only [upsertUser, hfound']
        obtain ⟨hknown, hkey⟩ := Table.mem_of_first hfound'
        intro heq
        have hsame : user = known := Table.eq_of_id hmem' hknown (hid.trans heq)
        have hno := Table.first_eq_none.1 hfound user hmem
        rw [hsame, hkey] at hno
        cases hno
    rw [hnew _ hfresh, hnew _ hfresh']

end Users

/-! ## One message -/

theorem mem_of_known {t : MessageTables} {session : PlatformSession} {conversationId : Nat} {source : IMMessage}
    {row : IMMessageRow} (h : t.known session conversationId source = some row) : row ∈ t.messages.rows := by
  unfold MessageTables.known MessageTables.findMessage at h
  split at h
  · exact (Table.mem_of_first h).1
  · exact (Table.mem_of_first h).1

theorem known_eq_some_iff {t : MessageTables} {session : PlatformSession} {conversationId : Nat} {source : IMMessage}
    {m : IMMessageRow} (hm : m ∈ t.messages.rows) :
    t.known session conversationId source = some m ↔ t.rowIdOf session conversationId source = m.id := by
  unfold MessageTables.rowIdOf
  cases hknown : t.known session conversationId source with
  | none => exact ⟨fun hc => (by cases hc), fun hc => absurd hc.symm (Nat.ne_of_lt (t.messages.idsFresh m hm))⟩
  | some row =>
    constructor
    · rintro ⟨⟩
      rfl
    · intro hid
      rw [Table.eq_of_id (mem_of_known hknown) hm hid]

namespace Ingesting

variable {g : Ingesting} {w w' : Ingestion} {source : IMMessage} {result : IngestResult}

/-- A message that is stored on its own: the row it is found in, the users it adds, the tables it leaves. -/
structure Alone (g : Ingesting) (w w' : Ingestion) (source : IMMessage) (result : IngestResult) : Prop where
  settles : ∃ s, g.settle source (upsertUser w.db.users g.session.platformId source.senderId).2.id
    (w.db.tables.findAlias g.session.platformSessionId g.conversation.id source)
    (w.db.tables.known g.session g.conversation.id source) (fun _ => none) w.db.tables w.cache = .ok s ∧
    w'.db.tables = s.tables ∧ result = s.result
  prefetch : w'.prefetch = none
  users : w.db.users.rows <+: w'.db.users.rows
  sender : (w'.db.users.first (fun user =>
    user.id = (upsertUser w.db.users g.session.platformId source.senderId).2.id)).map (fun user => user.platformUserId) =
      some source.senderId

theorem alone_ingestMessage (hp : w.prefetch = none) (h : g.ingestMessage w source = .ok (w', result)) :
    g.Alone w w' source result := by
  unfold ingestMessage resolveUsers at h
  simp only [hp, bind_none, map_none, bind_ok] at h
  obtain ⟨s, hs, hret⟩ := h
  cases hret
  have hgrown := upsertUsers_grown g.session.platformId
    ((referencedUserIds source).filter (fun id => id ≠ source.senderId))
    (upsertUser w.db.users g.session.platformId source.senderId).1
  obtain ⟨hmem, hid⟩ := upsertUser_row w.db.users g.session.platformId source.senderId
  refine ⟨⟨s, hs, rfl, rfl⟩, rfl, upsertUser_grown.trans hgrown, ?_⟩
  exact (congrArg (Option.map fun user => user.platformUserId)
    (first_of_grown hgrown (Table.first_id_of_mem hmem))).trans (congrArg some hid)

theorem Alone.answers (h : g.Alone w w' source result) :
    result.message.id = w.db.tables.rowIdOf g.session g.conversation.id source := by
  obtain ⟨s, hs, -, rfl⟩ := h.settles
  unfold MessageTables.rowIdOf
  cases hknown : w.db.tables.known g.session g.conversation.id source with
  | none =>
    rw [hknown] at hs
    exact (settle_new hs).1
  | some row =>
    rw [hknown] at hs
    obtain ⟨f, hf⟩ := storedIn_settle hs
    exact hf.answers

theorem settled_sender {v : MessageView} {kept : Bool} (h : v.sender.isSome = true) :
    (v.settled kept source).sender.isSome = true := by
  unfold MessageView.settled
  rw [MessageView.reacted_sender]
  cases kept with
  | true => exact h
  | false => rfl

/-- **What is seen of a stored row once a message is stored**: settled in its own row, as before in another. -/
theorem Alone.view (h : g.Alone w w' source result) {m : IMMessageRow} (hm : m ∈ w.db.tables.messages.rows)
    (hs : (senderOf w.db.users m).isSome = true) :
    ∃ m' ∈ w'.db.tables.messages.rows, m'.id = m.id ∧ (senderOf w'.db.users m').isSome = true ∧
      (w.db.tables.rowIdOf g.session g.conversation.id source ≠ m.id → m' = m) ∧
      messageView w'.db.users w'.db.tables m' =
        if w.db.tables.rowIdOf g.session g.conversation.id source = m.id then
          (messageView w.db.users w.db.tables m).settled (staysAsIs g.reader source
            (upsertUser w.db.users g.session.platformId source.senderId).2.id
            (w.db.tables.findAlias g.session.platformSessionId g.conversation.id source) m) source
        else messageView w.db.users w.db.tables m := by
  obtain ⟨s, hsettle, htables, -⟩ := h.settles
  have hsender : senderOf w'.db.users m = senderOf w.db.users m := senderOf_of_grown h.users hs
  rw [htables]
  by_cases hid : w.db.tables.rowIdOf g.session g.conversation.id source = m.id
  · rw [if_pos hid]
    rw [(known_eq_some_iff hm).2 hid] at hsettle
    obtain ⟨f, hf⟩ := storedIn_settle hsettle
    have hview := hf.view w.db.users w'.db.users hsender h.sender
    refine ⟨f m, ?_, (hf.touches.keyed m).1, ?_, fun hne => absurd hid hne, hview⟩
    · rw [hf.touches.rows]
      exact mem_map.2 ⟨m, hm, if_pos rfl⟩
    · show (messageView w'.db.users s.tables (f m)).sender.isSome = true
      rw [hview]
      exact settled_sender hs
  · rw [if_neg hid]
    have hsame : m ∈ s.tables.messages.rows ∧ ∀ key, s.tables.reactionAt m.id key = w.db.tables.reactionAt m.id key := by
      cases hknown : w.db.tables.known g.session g.conversation.id source with
      | none =>
        rw [hknown] at hsettle
        obtain ⟨-, hrows, hreactions, -⟩ := settle_new hsettle
        exact ⟨hrows m hm, fun key => hreactions m.id key (Nat.ne_of_lt (w.db.tables.messages.idsFresh m hm))⟩
      | some row =>
        rw [hknown] at hsettle
        obtain ⟨f, hf⟩ := storedIn_settle hsettle
        have hne : m.id ≠ row.id := fun heq => hid (by rw [MessageTables.rowIdOf, hknown]; exact heq.symm)
        refine ⟨?_, fun key => hf.touches.reactions m.id key hne⟩
        rw [hf.touches.rows]
        exact mem_map.2 ⟨m, hm, if_neg hne⟩
    refine ⟨m, hsame.1, rfl, by rw [hsender]; exact hs, fun _ => rfl, ?_⟩
    exact MessageView.ext hsender rfl rfl rfl rfl rfl (funext hsame.2)

end Ingesting

/-! ## The message after the last -/

section Told

variable {t t' t₀ : MessageTables} {id : Nat} {f : IMMessageRow → IMMessageRow} {session : PlatformSession}
  {conversationId : Nat} {source : IMMessage}

theorem Touches.first (h : Touches id f t t') {q : IMMessageRow → Bool} (hq : ∀ row, q (f row) = q row) :
    t'.messages.first q = (t.messages.first q).map (fun row => if row.id = id then f row else row) := by
  have hfind : (t.messages.rows.map (fun row => if decide (row.id = id) = true then f row else row)).find? q =
      (t.messages.rows.find? q).map (fun row => if decide (row.id = id) = true then f row else row) :=
    Table.find?_map_on (fun row _ _ => hq row)
  simp only [decide_eq_true_eq] at hfind
  unfold Table.first
  rw [h.rows, hfind]

theorem known_of_touches (h : Touches id f t t') (hmessages : t₀.messages = t.messages)
    (haliases : t'.aliases = t₀.aliases) :
    t'.known session conversationId source =
      (t₀.known session conversationId source).map (fun row => if row.id = id then f row else row) := by
  have halias : t'.findAlias session.platformSessionId conversationId source =
      t₀.findAlias session.platformSessionId conversationId source := by
    unfold MessageTables.findAlias
    rw [haliases]
  unfold MessageTables.known
  rw [halias]
  unfold MessageTables.findMessage
  split
  · unfold MessageTables.messageById
    rw [hmessages]
    exact h.first (fun row => by rw [(h.keyed row).1])
  · rw [hmessages]
    exact h.first (fun row => by
      obtain ⟨-, hs, hc, hp⟩ := h.keyed row
      rw [isPrimary, hs, hc, hp]
      rfl)

theorem rowIdOf_of_touches (h : Touches id f t t') (hmessages : t₀.messages = t.messages)
    (haliases : t'.aliases = t₀.aliases) :
    t'.rowIdOf session conversationId source = t₀.rowIdOf session conversationId source := by
  unfold MessageTables.rowIdOf
  rw [known_of_touches h hmessages haliases, h.nextId, hmessages, Option.map_map]
  refine congrArg (fun found => Option.getD found _) (congrArg (fun g => Option.map g _) (funext fun row => ?_))
  show (if row.id = id then f row else row).id = row.id
  split
  · exact (h.keyed row).1
  · rfl

variable {g : Ingesting} {w w' : Ingestion} {result : IngestResult} {last : IMMessage}

/-- **The aliases once the last message is stored.** -/
theorem Ingesting.Alone.told (h : g.Alone w w' last result) {row : IMMessageRow}
    (hknown : w.db.tables.known g.session g.conversation.id last = some row) :
    ∃ f, Touches row.id f w.db.tables w'.db.tables ∧
      w'.db.tables.aliases = (w.db.tables.told g.session g.conversation.id g.reader w.db.users (some last)).aliases := by
  obtain ⟨s, hsettle, htables, -⟩ := h.settles
  rw [hknown] at hsettle
  obtain ⟨f, hf⟩ := Ingesting.storedIn_settle hsettle
  have hleaves : w.db.tables.leaves g.session g.conversation.id last g.reader w.db.users =
      staysAsIs g.reader last (upsertUser w.db.users g.session.platformId last.senderId).2.id
        (w.db.tables.findAlias g.session.platformSessionId g.conversation.id last) row := by
    unfold MessageTables.leaves
    rw [hknown]
    rfl
  have hid : w.db.tables.rowIdOf g.session g.conversation.id last = row.id := by
    rw [MessageTables.rowIdOf, hknown]
    rfl
  rw [htables]
  refine ⟨f, hf.touches, ?_⟩
  unfold MessageTables.told
  dsimp only
  rw [hf.aliases, hleaves, hid]

end Told

/-! ## One dialog -/

def PlatformDialog.upserted (dialog : PlatformDialog) (row : IMConversationRow) : IMConversationRow :=
  { row with
    kind := dialog.conversation.kind, parentPlatformConversationId := dialog.conversation.parentId
    unreadCount := dialog.unreadCount }

def PlatformDialog.readResult (dialog : PlatformDialog) (latest boundary : List IngestResult) : Option IngestResult :=
  (if dialog.readInboxMaxMessage.isSome then if dialog.entry.boundary.isSome then boundary else latest else []).head?

structure DialogStored (reader : MessageReader) (session : PlatformSession) (s s' : ConversationStore)
    (row : IMConversationRow) (dialog : PlatformDialog) (w₀ w₁ w₂ : Ingestion) (latest boundary : List IngestResult) :
    Prop where
  start : w₀.prefetch = none ∧ w₀.db.users = s.db.users ∧ w₀.db.tables = s.db.tables
  last : ingestDialogMessage reader session (dialog.upserted row) w₀ .live dialog.lastMessage = .ok (w₁, latest)
  read : ingestDialogMessage reader session (dialog.upserted row) w₁ .history dialog.entry.boundary = .ok (w₂, boundary)
  tables : s'.db.users = w₂.db.users ∧ s'.db.tables = w₂.db.tables
  conversation : s'.db.conversations.first (fun other => other.id = row.id) = some { dialog.upserted row with
    readInboxMaxMessageId := ((dialog.readResult latest boundary).map (fun result => result.message.id)).or
      row.readInboxMaxMessageId }
  profile : s'.profiles row.id = dialogProfile dialog.conversation (some (s.profiles row.id))

section Stored

variable {reader : MessageReader} {session : PlatformSession} {s s' : ConversationStore} {row : IMConversationRow}
  {dialog : PlatformDialog} {results : List IngestResult}

theorem upsertDialogs_first (hrow : s.db.conversations.first
      (isConversation session.platformSessionId dialog.conversation.id) = some row) :
    (upsertDialogs s.db.conversations session [dialog.entry]).first
        (isConversation session.platformSessionId dialog.conversation.id) = some (dialog.upserted row) := by
  obtain ⟨hmem, hkey⟩ := Table.mem_of_first hrow
  have hany : s.db.conversations.rows.any (isConversation session.platformSessionId dialog.conversation.id) = true :=
    any_eq_true.2 ⟨row, hmem, hkey⟩
  unfold upsertDialogs Table.upsert
  simp only [foldl_cons, foldl_nil]
  refine (congrArg (fun conversations => Table.first conversations _) (if_pos hany)).trans ?_
  exact Table.first_set_found (fun _ _ => rfl) hrow hkey

def startDialog (s : ConversationStore) (session : PlatformSession) (dialog : PlatformDialog) : Ingestion :=
  { db := { s.db with conversations := upsertDialogs s.db.conversations session [dialog.entry] }
    cache := [], prefetch := none }

theorem dialogStored_ingestDialogs
    (hrow : s.db.conversations.first (isConversation session.platformSessionId dialog.conversation.id) = some row)
    (h : s.ingestDialogs reader session [dialog] = .ok (s', results)) :
    ∃ w₁ w₂ latest boundary,
      DialogStored reader session s s' row dialog (startDialog s session dialog) w₁ w₂ latest boundary := by
  have hfirst := upsertDialogs_first hrow
  have hprofile : s.upsertProfiles session [dialog] (upsertDialogs s.db.conversations session [dialog.entry]) row.id =
      dialogProfile dialog.conversation (some (s.profiles row.id)) := by
    simp [ConversationStore.upsertProfiles, ConversationStore.existingProfile, hfirst, hrow, PlatformDialog.upserted]
  have hbyId : (upsertDialogs s.db.conversations session [dialog.entry]).first (fun other => other.id = row.id) =
      some (dialog.upserted row) := Table.first_id_of_mem (Table.mem_of_first hfirst).1
  unfold ConversationStore.ingestDialogs Crossgram.ingestDialogs at h
  simp only [map_cons, map_nil] at h
  split at h
  · cases h
  · cases hdialogs : ingestEachDialog reader session (startDialog s session dialog) [dialog.entry] with
    | error e =>
      rw [startDialog] at hdialogs
      rw [hdialogs] at h
      cases h
    | ok out =>
      have hone := hdialogs
      rw [startDialog] at hdialogs
      rw [hdialogs] at h
      cases h
      rw [ingestEachDialog] at hone
      simp only [bind_ok] at hone
      obtain ⟨⟨w₃, results₃⟩, hdialog, ⟨w₄, results₄⟩, hnil, hret⟩ := hone
      cases hret
      cases hnil
      unfold ingestDialog at hdialog
      split at hdialog
      · cases hdialog
      · rename_i found hfound
        have hsame : found = dialog.upserted row := Option.some.inj (hfound.symm.trans hfirst)
        subst hsame
        simp only [bind_ok] at hdialog
        obtain ⟨⟨w₁, latest⟩, hlast, ⟨w₂, boundary⟩, hread, hret⟩ := hdialog
        cases hret
        refine ⟨w₁, w₂, latest, boundary, ⟨rfl, rfl, rfl⟩, hlast, hread, ⟨rfl, rfl⟩, ?_, hprofile⟩
        have hconversations : w₂.db.conversations = upsertDialogs s.db.conversations session [dialog.entry] :=
          (ingestDialogMessage_conversations hread).trans (ingestDialogMessage_conversations hlast)
        rw [← hconversations] at hbyId
        have hset : ∀ read : Option Nat, (w₂.db.conversations.set (fun other => other.id = row.id)
            (fun other => { other with readInboxMaxMessageId := read }) (fun _ => rfl)).first
              (fun other => other.id = row.id) = some { dialog.upserted row with readInboxMaxMessageId := read } :=
          fun read => Table.first_set_found (fun _ _ => rfl) hbyId (decide_eq_true rfl)
        exact hset _

variable {w₀ w₁ w₂ : Ingestion} {latest boundary : List IngestResult} {source : IMMessage}

theorem alone_ingestDialogMessage {w w' : Ingestion} {allocation : Allocation}
    (hp : w.prefetch = none)
    (h : ingestDialogMessage reader session (dialog.upserted row) w allocation (some source) = .ok (w', results)) :
    ∃ result, results = [result] ∧
      (Ingesting.mk reader session (dialog.upserted row) allocation).Alone w w' source result := by
  unfold ingestDialogMessage at h
  simp only [bind_ok] at h
  obtain ⟨⟨w₁, result⟩, hone, hret⟩ := h
  cases hret
  exact ⟨result, rfl, Ingesting.alone_ingestMessage hp hone⟩

def LastStored (s : ConversationStore) (row : IMConversationRow) (dialog : PlatformDialog) : Prop :=
  ∀ last, dialog.lastMessage = some last → ∃ m ∈ s.db.tables.messages.rows, m.conversationId = row.id ∧
    m.primaryPlatformMessageId = last.id

structure LastStep (reader : MessageReader) (session : PlatformSession) (s : ConversationStore) (row : IMConversationRow)
    (dialog : PlatformDialog) (w₁ : Ingestion) : Prop where
  prefetch : w₁.prefetch = none
  users : s.db.users.rows <+: w₁.db.users.rows
  aliases : w₁.db.tables.aliases = (s.db.tables.told session row.id reader s.db.users dialog.lastMessage).aliases
  rowIdOf : ∀ read, w₁.db.tables.rowIdOf session row.id read =
    (s.db.tables.told session row.id reader s.db.users dialog.lastMessage).rowIdOf session row.id read

theorem DialogStored.lastStep (h : DialogStored reader session s s' row dialog w₀ w₁ w₂ latest boundary)
    (hstored : LastStored s row dialog) : LastStep reader session s row dialog w₁ := by
  obtain ⟨hprefetch, husers, htables⟩ := h.start
  have hlast := h.last
  cases hc : dialog.lastMessage with
  | none =>
    rw [hc] at hlast
    cases hlast
    refine ⟨hprefetch, ?_, ?_, fun read => ?_⟩
    · rw [husers]
    · rw [htables, hc]; rfl
    · rw [htables, hc]; rfl
  | some last =>
    rw [hc] at hlast
    obtain ⟨result, -, halone⟩ := alone_ingestDialogMessage hprefetch hlast
    obtain ⟨m, hm, hconversation, hprimary⟩ := hstored last hc
    cases hknown : w₀.db.tables.known session row.id last with
    | none =>
      obtain ⟨st, hsettle, -, -⟩ := halone.settles
      have hnone : w₀.db.tables.known session (dialog.upserted row).id last = none := hknown
      rw [hnone] at hsettle
      have hfresh := (Ingesting.settle_new hsettle).2.2.2 m (htables ▸ hm) hconversation
      exact absurd hprimary hfresh
    | some known =>
      obtain ⟨f, htouches, haliases⟩ := halone.told hknown
      rw [htables, husers] at haliases
      rw [htables] at htouches
      refine ⟨halone.prefetch, husers ▸ halone.users, ?_, fun read => ?_⟩
      · rw [hc]
        exact haliases
      · rw [hc]
        exact rowIdOf_of_touches htouches rfl haliases

/-- **Where the read boundary is stored.** -/
theorem DialogStored.readResult_iff (h : DialogStored reader session s s' row dialog w₀ w₁ w₂ latest boundary)
    (hstored : LastStored s row dialog) :
    ((dialog.readResult latest boundary).map (fun result => result.message.id)).or row.readInboxMaxMessageId =
        row.readInboxMaxMessageId ↔
      (∀ last, dialog.lastMessage = some last → dialog.readInboxMaxMessage.isSome = true →
        dialog.entry.boundary = none → row.readInboxMaxMessageId = some (s.db.tables.rowIdOf session row.id last)) ∧
      ∀ read, dialog.entry.boundary = some read → row.readInboxMaxMessageId =
        some ((s.db.tables.told session row.id reader s.db.users dialog.lastMessage).rowIdOf session row.id read) := by
  have hstep := h.lastStep hstored
  unfold PlatformDialog.readResult
  cases hread : dialog.entry.boundary with
  | some read =>
    have hsome : dialog.readInboxMaxMessage.isSome = true := by
      obtain ⟨hread', -⟩ := filter_eq_some_iff.1 hread
      exact isSome_iff_exists.2 ⟨read, hread'⟩
    have hrun := h.read
    rw [hread] at hrun
    obtain ⟨result, rfl, halone⟩ := alone_ingestDialogMessage hstep.prefetch hrun
    have hid : result.message.id = _ := halone.answers.trans (hstep.rowIdOf read)
    rw [if_pos hsome, if_pos (show (some read).isSome = true from rfl)]
    simp only [head?_cons, map_some, some_or, hid]
    constructor
    · intro heq
      exact ⟨fun _ _ _ hc => (by cases hc), fun _ hc => Option.some.inj hc ▸ heq.symm⟩
    · rintro ⟨-, heq⟩
      exact (heq read rfl).symm
  | none =>
    rw [if_neg (show ¬ (none : Option IMMessage).isSome = true from Bool.false_ne_true)]
    by_cases hsome : dialog.readInboxMaxMessage.isSome = true
    · rw [if_pos hsome]
      cases hc : dialog.lastMessage with
      | none =>
        obtain ⟨read, hsome'⟩ := isSome_iff_exists.1 hsome
        have hboundary : dialog.entry.boundary = some read := filter_eq_some_iff.2 ⟨hsome', by
          simp [PlatformDialog.entry, hc]⟩
        rw [hread] at hboundary
        cases hboundary
      | some last =>
        obtain ⟨hprefetch, -, htables⟩ := h.start
        have hlast := h.last
        rw [hc] at hlast
        obtain ⟨result, rfl, halone⟩ := alone_ingestDialogMessage hprefetch hlast
        have hid : result.message.id = _ := halone.answers
        rw [htables] at hid
        rw [head?_cons, map_some, some_or, hid]
        constructor
        · intro heq
          exact ⟨fun _ hc' _ _ => Option.some.inj hc' ▸ heq.symm, fun _ hc' => (by cases hc')⟩
        · rintro ⟨heq, -⟩
          exact (heq last rfl hsome rfl).symm
    · rw [if_neg hsome]
      exact ⟨fun _ => ⟨fun _ _ hc _ => absurd hc hsome, fun _ hc => (by cases hc)⟩, fun _ => rfl⟩

/-! ## The message that was the last -/

def MessageView.settledIf (v : MessageView) (inRow kept : Bool) : Option IMMessage → MessageView
  | some source => if inRow then v.settled kept source else v
  | none        => v

variable {m : IMMessageRow}

theorem leaves_of_rowIdOf {t : MessageTables} {users : Table IMUserRow}
    (hm : m ∈ t.messages.rows) (hid : t.rowIdOf session row.id source = m.id) :
    t.leaves session row.id source reader users = staysAsIs reader source
      (upsertUser users session.platformId source.senderId).2.id
      (t.findAlias session.platformSessionId row.id source) m := by
  unfold MessageTables.leaves
  rw [(known_eq_some_iff hm).2 hid]
  rfl

theorem told_messages (t : MessageTables) (users : Table IMUserRow) (last : Option IMMessage) :
    (t.told session row.id reader users last).messages = t.messages := by
  cases last <;> rfl

variable {last : IMMessage}

theorem DialogStored.last_view (h : DialogStored reader session s s' row dialog w₀ w₁ w₂ latest boundary)
    (hm : m ∈ s.db.tables.messages.rows) (hs : (senderOf s.db.users m).isSome = true)
    (hlast : dialog.lastMessage = some last) :
    ∃ m₁ ∈ w₁.db.tables.messages.rows, m₁.id = m.id ∧ (senderOf w₁.db.users m₁).isSome = true ∧
      (lastIn session s row dialog m = false → m₁ = m) ∧ messageView w₁.db.users w₁.db.tables m₁ =
        (messageView s.db.users s.db.tables m).settledIf (lastIn session s row dialog m)
          (s.db.tables.leaves session row.id last reader s.db.users) (some last) := by
  obtain ⟨hprefetch, husers, htables⟩ := h.start
  have hrun := h.last
  rw [hlast] at hrun
  obtain ⟨result, -, halone⟩ := alone_ingestDialogMessage hprefetch hrun
  obtain ⟨m₁, hm₁, hid, hs₁, hsame, hview⟩ := halone.view (htables ▸ hm) (husers ▸ hs)
  have hin : lastIn session s row dialog m = decide (s.db.tables.rowIdOf session row.id last = m.id) := by
    rw [lastIn, hlast]
    rfl
  rw [htables, husers] at hview
  rw [htables] at hsame
  refine ⟨m₁, hm₁, hid, hs₁, fun hno => hsame (fun heq => ?_), ?_⟩
  · rw [hin] at hno
    exact of_decide_eq_false hno heq
  · refine hview.trans ?_
    rw [MessageView.settledIf, hin]
    by_cases heq : s.db.tables.rowIdOf session row.id last = m.id
    · rw [if_pos (decide_eq_true heq), leaves_of_rowIdOf hm heq]
      exact if_pos heq
    · rw [if_neg (fun hc => heq (of_decide_eq_true hc))]
      exact if_neg heq

/-- **The message once the dialog is stored.** -/
theorem DialogStored.view (h : DialogStored reader session s s' row dialog w₀ w₁ w₂ latest boundary)
    (hstored : LastStored s row dialog) (hm : m ∈ s.db.tables.messages.rows)
    (hs : (senderOf s.db.users m).isSome = true) (hlast : dialog.lastMessage = some last) :
    ∃ m' kept, s'.db.tables.messageById m.id = some m' ∧
      (∀ read, dialog.entry.boundary = some read → lastIn session s row dialog m = false →
        boundaryIn reader session s row dialog m = true →
        kept = (s.db.tables.told session row.id reader s.db.users dialog.lastMessage).leaves session row.id read reader
          s.db.users) ∧
      messageView s'.db.users s'.db.tables m' =
        ((messageView s.db.users s.db.tables m).settledIf (lastIn session s row dialog m)
          (s.db.tables.leaves session row.id last reader s.db.users) (some last)).settledIf
          (boundaryIn reader session s row dialog m) kept dialog.entry.boundary := by
  obtain ⟨m₁, hm₁, hid₁, hs₁, hsame₁, hview₁⟩ := h.last_view hm hs hlast
  have hstep := h.lastStep hstored
  obtain ⟨husers, htables⟩ := h.tables
  have hrun := h.read
  rw [husers, htables]
  cases hread : dialog.entry.boundary with
  | none =>
    rw [hread] at hrun
    cases hrun
    refine ⟨m₁, false, ?_, fun _ hc => (by cases hc), hview₁⟩
    rw [← hid₁]
    exact Table.first_id_of_mem hm₁
  | some read =>
    rw [hread] at hrun
    obtain ⟨result, -, halone⟩ := alone_ingestDialogMessage hstep.prefetch hrun
    obtain ⟨m₂, hm₂, hid₂, -, -, hview₂⟩ := halone.view hm₁ hs₁
    have hin : boundaryIn reader session s row dialog m =
        decide (w₁.db.tables.rowIdOf session row.id read = m₁.id) := by
      rw [boundaryIn, hread, hid₁, hstep.rowIdOf]
      rfl
    refine ⟨m₂, staysAsIs reader read (upsertUser w₁.db.users session.platformId read.senderId).2.id
        (w₁.db.tables.findAlias session.platformSessionId row.id read) m₁, ?_, fun read' hread' hno hyes => ?_, ?_⟩
    · rw [← hid₁, ← hid₂]
      exact Table.first_id_of_mem hm₂
    · cases hread'
      have hsame : m₁ = m := hsame₁ hno
      subst hsame
      rw [hin] at hyes
      have hfound := of_decide_eq_true hyes
      rw [hstep.rowIdOf] at hfound
      rw [leaves_of_rowIdOf (by rw [told_messages]; exact hm) hfound, staysAsIs_of_grown hstep.users hs]
      unfold MessageTables.findAlias
      rw [hstep.aliases]
    · refine hview₂.trans ?_
      rw [MessageView.settledIf, hin, ← hview₁]
      by_cases heq : w₁.db.tables.rowIdOf session row.id read = m₁.id
      · rw [if_pos (decide_eq_true heq)]
        exact if_pos heq
      · rw [if_neg (fun hc => heq (of_decide_eq_true hc))]
        exact if_neg heq

/-! ## The conversation -/

theorem property_setGiven {fields : JsonObject} {key key' : String} {value : Option Json} (h : key' ≠ key) :
    Json.property (.obj (setGiven fields key value)) key' = Json.property (.obj fields) key' := by
  cases value with
  | none => rfl
  | some value => exact (Json.property_setField fields key value key').trans (if_neg h)

theorem property_conversationMetadata {conversation : PlatformConversation} {existing : JsonObject} {key : String}
    (h : isPublicConversationKey key = true) :
    Json.property (.obj (conversationMetadata conversation existing)) key =
      Json.property (.obj (Json.spread [] conversation.metadata)) key := by
  obtain ⟨hrole, hpermissions⟩ : key ≠ storedSelfRoleKey ∧ key ≠ storedSelfPermissionsKey := of_decide_eq_true h
  unfold conversationMetadata
  rw [property_setGiven hpermissions, property_setGiven hrole]

theorem public_metadata_iff {a b : JsonObject} :
    (fun key => (Json.property (.obj (a.filter (fun f => isPublicConversationKey f.1))) key).map Json.canonical) =
        (fun key => (Json.property (.obj (b.filter (fun f => isPublicConversationKey f.1))) key).map Json.canonical) ↔
      ∀ key, isPublicConversationKey key = true →
        (Json.property (.obj a) key).map Json.canonical = (Json.property (.obj b) key).map Json.canonical := by
  constructor
  · intro h key hpublic
    have hkey := congrFun h key
    rw [Json.property_filter, Json.property_filter, if_pos hpublic, if_pos hpublic] at hkey
    exact hkey
  · intro h
    funext key
    rw [Json.property_filter, Json.property_filter]
    by_cases hpublic : isPublicConversationKey key = true
    · rw [if_pos hpublic, if_pos hpublic]
      exact h key hpublic
    · rw [if_neg hpublic, if_neg hpublic]

theorem avatar_iff {reported stored : Option Json} :
    (reported.or stored).map Json.canonical = stored.map Json.canonical ↔
      ∀ avatar, reported = some avatar → stored.map Json.canonical = some avatar.canonical := by
  cases reported with
  | none => exact ⟨fun _ _ hc => (by cases hc), fun _ => rfl⟩
  | some avatar => exact ⟨fun h _ hc => Option.some.inj hc ▸ h.symm, fun h => (h avatar rfl).symm⟩

/-! ## The dialog -/

structure Compared (upstream : PlatformDialog) (stored : StoredDialog) : Prop where
  unreadCount : upstream.unreadCount = stored.unreadCount
  kind : upstream.conversation.kind = stored.conversation.kind
  title : upstream.conversation.title = stored.conversation.title
  parentId : upstream.conversation.parentId = stored.conversation.parentId
  spaceId : upstream.conversation.spaceId = stored.conversation.spaceId
  lastMessage : lastMessageDiffers upstream.lastMessage stored.lastMessage = false

variable {stored : StoredDialog}

theorem compared_of_shortcut {upstream : PlatformDialog}
    (h : dialogNeedsPersistence upstream (some stored) = false) : Compared upstream stored := by
  unfold dialogNeedsPersistence at h
  dsimp only at h
  split at h
  · cases h
  · rename_i hunread
    split at h
    · cases h
    · rename_i hdiffers
      simp only [not_or, not_not] at hunread hdiffers
      exact ⟨hunread, hdiffers.1, hdiffers.2.1, hdiffers.2.2.1, hdiffers.2.2.2.1, h⟩

theorem mem_of_latestMessage {t : MessageTables} {conversationId : Nat}
    (h : latestMessage t conversationId = some m) : m ∈ t.messages.rows ∧ m.conversationId = conversationId := by
  have hmem := mem_of_mem_head? (mem_def.2 h)
  rw [mem_insertionSort] at hmem
  obtain ⟨hrow, hkey⟩ := mem_filter.1 hmem
  exact ⟨hrow, (of_decide_eq_true hkey).1⟩

structure ReadBack (s : ConversationStore) (row : IMConversationRow) (stored : StoredDialog) : Prop where
  conversation : stored.conversation = toConversation row (s.profiles row.id)
  unreadCount : stored.unreadCount = row.unreadCount
  absent : latestMessage s.db.tables row.id = none → stored.lastMessage = none
  present : ∀ m, latestMessage s.db.tables row.id = some m → ∃ last, stored.lastMessage = some last ∧
    last.id = m.primaryPlatformMessageId ∧ senderOf s.db.users m = some last.senderId

theorem readBack_hydrateDialog (h : s.hydrateDialog row = .ok stored) : ReadBack s row stored := by
  unfold ConversationStore.hydrateDialog at h
  simp only [bind_ok] at h
  obtain ⟨last, hlast, boundary, -, hret⟩ := h
  cases hret
  refine ⟨rfl, rfl, fun hnone => ?_, fun m hm => ?_⟩
  · rw [hnone] at hlast
    cases hlast
    rfl
  · rw [hm] at hlast
    unfold hydrateOptional hydrateLastMessage at hlast
    dsimp only at hlast
    cases hsender : s.db.users.first (fun user => user.id = m.senderUserId) with
    | none => rw [hsender] at hlast; cases hlast
    | some sender =>
      rw [hsender] at hlast
      cases hlast
      refine ⟨_, rfl, rfl, ?_⟩
      rw [senderOf, hsender]
      rfl

theorem agrees_of_restates {v : MessageView} (kept : Bool) (h : Agrees false source v) :
    Agrees kept source v :=
  ⟨Or.inr (h.restates.resolve_left Bool.false_ne_true), h.reactions⟩

theorem lastStored_of_compared (hback : ReadBack s row stored) (hcompared : Compared dialog stored) :
    LastStored s row dialog := by
  intro last hlast
  have hdiffers := hcompared.lastMessage
  rw [hlast] at hdiffers
  cases hm : latestMessage s.db.tables row.id with
  | none =>
    rw [hback.absent hm] at hdiffers
    cases hdiffers
  | some m =>
    obtain ⟨storedLast, hsome, hid, -⟩ := hback.present m hm
    rw [hsome] at hdiffers
    simp only [lastMessageDiffers, Bool.or_eq_false_iff, decide_eq_false_iff_not, not_not] at hdiffers
    obtain ⟨hmem, hconversation⟩ := mem_of_latestMessage hm
    exact ⟨m, hmem, hconversation, hid.symm.trans hdiffers.1.1.1.1.symm⟩

theorem DialogStored.conversation_iff (h : DialogStored reader session s s' row dialog w₀ w₁ w₂ latest boundary)
    (hback : ReadBack s row stored) (hcompared : Compared dialog stored) :
    (∃ row', s'.db.conversations.first (fun other => other.id = row.id) = some row' ∧
      s'.conversationView row' = s.conversationView row) ↔
      (∀ avatar, dialog.conversation.avatar = some avatar →
        (s.profiles row.id).avatar.map Json.canonical = some avatar.canonical) ∧
      (∀ key, isPublicConversationKey key = true →
        (Json.property (.obj (s.profiles row.id).metadata) key).map Json.canonical =
          (Json.property (.obj (Json.spread [] dialog.conversation.metadata)) key).map Json.canonical) ∧
      ((dialog.readResult latest boundary).map (fun result => result.message.id)).or row.readInboxMaxMessageId =
        row.readInboxMaxMessageId := by
  have hmetadata : ∀ key, isPublicConversationKey key = true →
      (Json.property (.obj (s'.profiles row.id).metadata) key).map Json.canonical =
        (Json.property (.obj (Json.spread [] dialog.conversation.metadata)) key).map Json.canonical := by
    intro key hpublic
    rw [h.profile]
    exact congrArg (Option.map Json.canonical) (property_conversationMetadata hpublic)
  constructor
  · rintro ⟨row', hrow', hview⟩
    rw [h.conversation] at hrow'
    cases hrow'
    have havatar := congrArg ConversationView.avatar hview
    have hall := congrArg ConversationView.metadata hview
    have hread := congrArg ConversationView.readInboxMaxMessageId hview
    refine ⟨avatar_iff.1 ?_, fun key hpublic => ?_, hread⟩
    · have hset : (s'.profiles row.id).avatar = dialog.conversation.avatar.or (s.profiles row.id).avatar := by
        rw [h.profile]
        rfl
      rw [← hset]
      exact havatar
    · exact (public_metadata_iff.1 hall key hpublic).symm.trans (hmetadata key hpublic)
  · rintro ⟨havatar, hkeys, hread⟩
    refine ⟨_, h.conversation, ?_⟩
    have hconversation := hback.conversation
    have hkind : dialog.conversation.kind = row.kind := by rw [hcompared.kind, hconversation]; rfl
    have htitle : (s'.profiles row.id).title = (s.profiles row.id).title := by
      rw [h.profile]
      exact hcompared.title.trans (by rw [hconversation]; rfl)
    have hspace : (s'.profiles row.id).spacePlatformId = (s.profiles row.id).spacePlatformId := by
      rw [h.profile]
      exact hcompared.spaceId.trans (by rw [hconversation]; rfl)
    have hparent : dialog.conversation.parentId = row.parentPlatformConversationId := by
      rw [hcompared.parentId, hconversation]
      rfl
    have hunread : dialog.unreadCount = row.unreadCount := hcompared.unreadCount.trans hback.unreadCount
    have hset : (s'.profiles row.id).avatar = dialog.conversation.avatar.or (s.profiles row.id).avatar := by
      rw [h.profile]
      rfl
    have hset' : (s'.profiles row.id).avatar.map Json.canonical = (s.profiles row.id).avatar.map Json.canonical := by
      rw [hset]
      exact avatar_iff.2 havatar
    refine ConversationView.ext hkind htitle hparent hspace hset' ?_ hunread hread
    exact public_metadata_iff.2 (fun key hpublic => (hmetadata key hpublic).trans (hkeys key hpublic).symm)

def RowAgrees (reader : MessageReader) (session : PlatformSession) (s : ConversationStore) (row : IMConversationRow)
    (dialog : PlatformDialog) (last : IMMessage) (m : IMMessageRow) : Prop :=
  (lastIn session s row dialog m = true →
    Agrees (s.db.tables.leaves session row.id last reader s.db.users) last (messageView s.db.users s.db.tables m)) ∧
  ∀ read, dialog.entry.boundary = some read → boundaryIn reader session s row dialog m = true →
    Agrees (!lastIn session s row dialog m &&
      (s.db.tables.told session row.id reader s.db.users dialog.lastMessage).leaves session row.id read reader s.db.users)
      read (messageView s.db.users s.db.tables m)

theorem DialogStored.message_iff (h : DialogStored reader session s s' row dialog w₀ w₁ w₂ latest boundary)
    (hstored : LastStored s row dialog) (hm : m ∈ s.db.tables.messages.rows)
    (hs : (senderOf s.db.users m).isSome = true) (hlast : dialog.lastMessage = some last) :
    (RowAgrees reader session s row dialog last m → ∃ m', s'.db.tables.messageById m.id = some m' ∧
        messageView s'.db.users s'.db.tables m' = messageView s.db.users s.db.tables m) ∧
    (¬ (lastIn session s row dialog m = true ∧ boundaryIn reader session s row dialog m = true) →
      (∃ m', s'.db.tables.messageById m.id = some m' ∧
        messageView s'.db.users s'.db.tables m' = messageView s.db.users s.db.tables m) →
      RowAgrees reader session s row dialog last m) := by
  unfold RowAgrees
  obtain ⟨m', kept, hfound, hkept, hview⟩ := h.view hstored hm hs hlast
  generalize messageView s.db.users s.db.tables m = v at hview ⊢
  generalize s.db.tables.leaves session row.id last reader s.db.users = leaves at hview ⊢
  constructor
  · rintro ⟨hfirst, hsecond⟩
    refine ⟨m', hfound, hview.trans ?_⟩
    have hsame : v.settledIf (lastIn session s row dialog m) leaves (some last) = v := by
      unfold MessageView.settledIf
      dsimp only
      split
      · rename_i hin
        exact MessageView.settled_eq_iff.2 (hfirst hin)
      · rfl
    rw [hsame]
    cases hread : dialog.entry.boundary with
    | none => rfl
    | some read =>
      unfold MessageView.settledIf
      dsimp only
      split
      · rename_i hin
        have hagrees := hsecond read hread hin
        cases hlastIn : lastIn session s row dialog m with
        | true =>
          rw [hlastIn] at hagrees
          exact MessageView.settled_eq_iff.2 (agrees_of_restates kept hagrees)
        | false =>
          rw [hlastIn] at hagrees
          rw [hkept read hread hlastIn hin]
          exact MessageView.settled_eq_iff.2 hagrees
      · rfl
  · rintro honce ⟨m'', hfound', hsame⟩
    rw [hfound] at hfound'
    cases hfound'
    rw [hview] at hsame
    refine ⟨fun hin => ?_, fun read hread hin => ?_⟩
    · have hout : boundaryIn reader session s row dialog m = false := by
        rw [Bool.eq_false_iff]
        exact fun hc => honce ⟨hin, hc⟩
      have hskip : ∀ source v', MessageView.settledIf v' false kept source = v' := fun source v' => by
        cases source <;> rfl
      rw [hout, hskip, hin] at hsame
      exact MessageView.settled_eq_iff.1 hsame
    · have hout : lastIn session s row dialog m = false := by
        rw [Bool.eq_false_iff]
        exact fun hc => honce ⟨hc, hin⟩
      rw [hout, hin, hread, hkept read hread hout hin] at hsame
      rw [hout]
      exact MessageView.settled_eq_iff.1 hsame

/-- **What is not written would have changed nothing exactly where the dialog is covered.**  Where both messages of the
dialog are stored in the row of the last message, the second may undo what the first changed. -/
theorem ingestDialogs_keeps_iff {stored : StoredDialog}
    (hrow : s.db.conversations.first (isConversation session.platformSessionId dialog.conversation.id) = some row)
    (hstored : s.hydrateDialog row = .ok stored) (hshort : dialogNeedsPersistence dialog (some stored) = false)
    (hrun : s.ingestDialogs reader session [dialog] = .ok (s', results)) :
    (Covered reader session s row dialog → KeepsDialog s s' row) ∧
      (¬ ToldTwice reader session s row dialog → KeepsDialog s s' row → Covered reader session s row dialog) := by
  obtain ⟨w₁, w₂, latest, boundary, hdialog⟩ := dialogStored_ingestDialogs hrow hrun
  have hcompared := compared_of_shortcut hshort
  have hback := readBack_hydrateDialog hstored
  have hfresh := lastStored_of_compared hback hcompared
  have hconversation := hdialog.conversation_iff hback hcompared
  rw [hdialog.readResult_iff hfresh] at hconversation
  have hlast : ∀ m, latestMessage s.db.tables row.id = some m → (senderOf s.db.users m).isSome = true ∧
      ∃ last, dialog.lastMessage = some last := fun m hm => by
    obtain ⟨storedLast, hsome, -, hsender⟩ := hback.present m hm
    refine ⟨by rw [hsender]; rfl, ?_⟩
    have hdiffers := hcompared.lastMessage
    rw [hsome] at hdiffers
    cases hc : dialog.lastMessage with
    | none => rw [hc] at hdiffers; cases hdiffers
    | some last => exact ⟨last, rfl⟩
  constructor
  · intro hcovered
    refine ⟨hconversation.2 ⟨hcovered.avatar, hcovered.metadata, hcovered.readToLast, hcovered.readTo⟩, fun m hm => ?_⟩
    obtain ⟨hs, last, hc⟩ := hlast m hm
    exact (hdialog.message_iff hfresh (mem_of_latestMessage hm).1 hs hc).1
      ⟨hcovered.last m last hm hc, fun read => hcovered.read m read hm⟩
  · intro honce hkeeps
    obtain ⟨havatar, hmetadata, hreadToLast, hreadTo⟩ := hconversation.1 hkeeps.conversation
    have hagree : ∀ m last, latestMessage s.db.tables row.id = some m → dialog.lastMessage = some last → _ :=
      fun m last hm hc => (hdialog.message_iff hfresh (mem_of_latestMessage hm).1 (hlast m hm).1 hc).2
        (fun hboth => honce ⟨m, hm, hboth⟩) (hkeeps.lastMessage m hm)
    refine ⟨havatar, hmetadata, hreadToLast, hreadTo, fun m last hm hc => (hagree m last hm hc).1, fun m read hm => ?_⟩
    obtain ⟨-, last, hc⟩ := hlast m hm
    exact (hagree m last hm hc).2 read

end Stored

/-! ## A group whose picture was changed -/

def silentReader : MessageReader :=
  { messageText := fun _ => "", messageSearchText := fun _ => "", messageSearchKinds := fun _ _ => 0
    isArticleMessage := fun _ => false, plan := fun _ _ _ _ plan => plan
    requestInboxMessage := fun request =>
      { id := request.id, conversationId := "", senderId := "", content := { parts := [], rest := .null }, timestamp := 0 }
    requestTimestamp := fun _ => 0 }

def groupSession : PlatformSession := { platformSessionId := "s", platformId := "p", userId := "me" }

def groupRow : IMConversationRow :=
  { id := 1, platformSessionId := "s", platformConversationId := "g", kind := .group
    parentPlatformConversationId := none, unreadCount := 2, readInboxMaxMessageId := none }

def groupMessage : IMMessage :=
  { id := "greeting", conversationId := "g", senderId := "u", content := { parts := [], rest := .null }, timestamp := 5 }

def groupStore : ConversationStore :=
  { db :=
      { users := Table.empty.insert (fun id => ⟨id, "p", "u"⟩) (fun _ => rfl)
        conversations := Table.empty.insert (fun id => { groupRow with id := id }) (fun _ => rfl)
        requests := Table.empty
        tables := { MessageTables.empty with
          messages := Table.empty.insert (fun id => (Ingesting.mk silentReader groupSession groupRow .live).newMessage
            groupMessage 1 0 id) (fun _ => rfl)
          aliases := Table.empty.insert (fun id => ⟨id, "s", 1, "greeting", 1, 0⟩) (fun _ => rfl) } }
    profiles := fun _ => { title := "Group", spacePlatformId := none, avatar := none, metadata := [] } }

def groupDialog (avatar : Option Json) : PlatformDialog :=
  { conversation := { id := "g", kind := .group, title := "Group", avatar := avatar }, unreadCount := 2
    lastMessage := some groupMessage }

theorem groupDialog_spared (avatar : Option Json) : ∃ stored, groupStore.hydrateDialog groupRow = .ok stored ∧
    dialogNeedsPersistence (groupDialog avatar) (some stored) = false := ⟨_, rfl, rfl⟩

theorem groupDialog_runs (avatar : Option Json) : ∃ s' results,
    groupStore.ingestDialogs silentReader groupSession [groupDialog avatar] = .ok (s', results) := ⟨_, _, rfl⟩

theorem group_keeps : ∃ s' results,
    groupStore.ingestDialogs silentReader groupSession [groupDialog none] = .ok (s', results) ∧
      KeepsDialog groupStore s' groupRow := by
  obtain ⟨stored, hstored, hshort⟩ := groupDialog_spared none
  obtain ⟨s', results, hrun⟩ := groupDialog_runs none
  refine ⟨s', results, hrun, (ingestDialogs_keeps_iff rfl hstored hshort hrun).1 ?_⟩
  refine ⟨fun _ hc => (by cases hc), fun key _ => rfl, fun _ _ hc => (by cases hc), fun _ hc => (by cases hc), ?_,
    fun _ _ _ hc => (by cases hc)⟩
  intro m last hm hlast _
  cases hlast
  exact ⟨Or.inl rfl, fun context hc => (by cases hc)⟩

/-- **A new picture is not written**, though the write would store it. -/
theorem avatar_not_kept : ¬ ∀ (reader : MessageReader) (session : PlatformSession) (s s' : ConversationStore)
    (row : IMConversationRow) (dialog : PlatformDialog) (stored : StoredDialog) (results : List IngestResult),
    s.db.conversations.first (isConversation session.platformSessionId dialog.conversation.id) = some row →
    s.hydrateDialog row = .ok stored → dialogNeedsPersistence dialog (some stored) = false →
    s.ingestDialogs reader session [dialog] = .ok (s', results) → KeepsDialog s s' row := by
  intro hall
  obtain ⟨stored, hstored, hshort⟩ := groupDialog_spared (some (.str "new"))
  obtain ⟨s', results, hrun⟩ := groupDialog_runs (some (.str "new"))
  obtain ⟨row', hrow', hview⟩ := (hall silentReader groupSession groupStore s' groupRow (groupDialog (some (.str "new")))
    stored results rfl hstored hshort hrun).conversation
  have hfirst : groupStore.db.conversations.first (isConversation "s" "g") = some groupRow := rfl
  obtain ⟨w₁, w₂, latest, boundary, hdialog⟩ := dialogStored_ingestDialogs hfirst hrun
  have havatar : (s'.profiles groupRow.id).avatar.map Json.canonical = none := by
    rw [hdialog.conversation] at hrow'
    cases hrow'
    exact congrArg ConversationView.avatar hview
  rw [hdialog.profile] at havatar
  cases havatar

end Crossgram
