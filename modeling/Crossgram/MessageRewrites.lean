import Crossgram.MessageIdentity
/-!
# MessageRewrites — what storing messages does to the rows of all messages

A message is stored under its own row: the rows of other messages keep their conversation, their second and whether they
are deleted, and no part of theirs is written.  `Rewrites` says so of one ingestion.
-/
namespace Crossgram

open List
open Results (bind_ok)

structure Standing where
  id : Nat
  conversationId : Nat
  timestamp : Int
  deleted : Bool

def IMMessageRow.standing (row : IMMessageRow) : Standing :=
  { id := row.id, conversationId := row.conversationId, timestamp := row.timestamp, deleted := row.deleted }

def TlMessagePartRow.owned (row : TlMessagePartRow) : PartPlacing × String := (row.placing, row.platformSessionId)

structure Rewrites (t : MessageTables) (r : IngestResult) (t' : MessageTables) : Prop where
  rows : ∀ m' ∈ t'.messages.rows,
    ((∃ m ∈ t.messages.rows, m'.standing = m.standing) ∧
      ∀ part' ∈ t'.parts.rows, part'.messageId = m'.id → ∃ part ∈ t.parts.rows, part'.owned = part.owned) ∨
    (m'.standing = r.message.standing ∧ ∀ part' ∈ t'.parts.rows, part'.messageId = m'.id → part' ∈ r.projection)
  stays : ∀ m ∈ t.messages.rows, ∃ m' ∈ t'.messages.rows, m'.id = m.id ∧ m'.conversationId = m.conversationId ∧
    m'.deleted = m.deleted
  kept : ∀ part ∈ t.parts.rows, (∃ part' ∈ t'.parts.rows, part'.owned = part.owned) ∨
    (part.messageId = r.message.id ∧ part.tlMessageId ∈ r.removedTlMessageIds)

/-! ## The parts of one message -/

namespace Projecting

variable {p : Projecting}

def ownedParts (parts : Table TlMessagePartRow) : List (PartPlacing × String) := parts.rows.map TlMessagePartRow.owned

theorem ownedParts_set {parts : Table TlMessagePartRow} {which : TlMessagePartRow → Bool}
    {f : TlMessagePartRow → TlMessagePartRow} (h : ∀ row, Row.id (f row) = Row.id row)
    (ho : ∀ row, (f row).owned = row.owned) : ownedParts (parts.set which f h) = ownedParts parts := by
  unfold ownedParts Table.set
  rw [map_map]
  refine map_congr_left (fun row _ => ?_)
  show (if which row then f row else row).owned = row.owned
  split
  · exact ho row
  · rfl

theorem messages_ensureProjection {t t' : MessageTables} {cache cache' : List (String × Int)} {projected : Projected}
    (h : p.ensureProjection t cache = .ok ((t', cache'), projected)) : t'.messages = t.messages := by
  obtain ⟨-, ⟨t₁, t₂, groupedId, hgroup, hadd, rfl⟩, -, -⟩ := steps h
  have h₁ : t₁.messages = t.messages := by
    obtain ⟨counters, parts, rfl, -⟩ := regroup_ok hgroup
    rfl
  rcases addParts_ok hadd with ⟨-, rfl, -, -⟩ | ⟨-, preferredId, epochs, -, -, rfl⟩
  · exact h₁
  · exact h₁

theorem owned_of_mem {parts : Table TlMessagePartRow} {o : PartPlacing × String} (h : o ∈ ownedParts parts) :
    ∃ part ∈ parts.rows, o = part.owned := by
  obtain ⟨part, hpart, heq⟩ := mem_map.1 h
  exact ⟨part, hpart, heq.symm⟩

/-- **The parts `_ensureProjection` leaves**: those there were but for the ones it reports removed, and new ones of its
message. -/
theorem owned_ensureProjection {t t' : MessageTables} {cache cache' : List (String × Int)} {projected : Projected}
    (hplaced : Placed (placings t.parts)) (h : p.ensureProjection t cache = .ok ((t', cache'), projected)) :
    (∀ o ∈ ownedParts t'.parts, o ∈ ownedParts t.parts ∨ o.1.messageId = p.messageId) ∧
      ∀ part ∈ t.parts.rows, part.owned ∈ ownedParts t'.parts ∨
        (part.messageId = p.messageId ∧ part.tlMessageId ∈ projected.removedTlMessageIds) := by
  obtain ⟨-, ⟨t₁, t₂, groupedId, hgroup, hadd, rfl⟩, hremoved, -⟩ := steps h
  obtain ⟨hp₁, hn₁⟩ := placings_regroup hgroup
  rw [placings_resequence] at hp₁
  have hplaced₁ : Placed (placings t₁.parts) := hp₁ ▸ placed_retire hplaced
  have ho₁ : ownedParts t₁.parts = ownedParts (p.retire t (partsOf t.parts p.messageId)).parts := by
    have hreseq : ownedParts (p.resequence (p.retire t (partsOf t.parts p.messageId))
        (p.staying (partsOf t.parts p.messageId))).parts =
        ownedParts (p.retire t (partsOf t.parts p.messageId)).parts := by
      refine ownedParts_set ?_ ?_ <;> exact fun _ => rfl
    obtain ⟨counters, parts, rfl, rfl | ⟨g, rfl⟩⟩ := regroup_ok hgroup
    · exact hreseq
    · refine Eq.trans (ownedParts_set ?_ ?_) hreseq <;> exact fun _ => rfl
  obtain ⟨hrows, -⟩ := rows_of_addParts hplaced₁ (ordinalsOf_retired t hp₁) hadd
  have hrefresh : ownedParts (p.refresh t₂ groupedId).parts = ownedParts t₂.parts := by
    refine ownedParts_set ?_ ?_ <;> exact fun _ => rfl
  have ho₂ : ownedParts t₂.parts = ownedParts (p.retire t (partsOf t.parts p.messageId)).parts ++
      (newParts p groupedId (p.staying (partsOf t.parts p.messageId)).length projected.addedTlMessageIds
        t₁.parts.nextId).map TlMessagePartRow.owned := by
    rw [← ho₁]
    unfold ownedParts
    rw [hrows, map_append]
  rw [hrefresh, ho₂]
  refine ⟨fun o ho => ?_, fun part hpart => ?_⟩
  · rcases mem_append.1 ho with hin | hnew
    · exact Or.inl ((List.Sublist.map _ filter_sublist).subset hin)
    · obtain ⟨part, hpart, rfl⟩ := mem_map.1 hnew
      obtain ⟨n, -, ordinal, id, -, rfl⟩ := mem_newParts hpart
      exact Or.inr rfl
  · cases ha : among (p.leaving (partsOf t.parts p.messageId)) part with
    | false => exact Or.inl (mem_append_left _ (mem_map_of_mem (Table.mem_remove.2 ⟨hpart, ha⟩)))
    | true =>
      obtain ⟨hl, hm⟩ := leaving_of_message hpart ha
      exact Or.inr ⟨hm, hremoved ▸ mem_map_of_mem hl⟩

end Projecting

/-! ## One message -/

theorem standing_set {messages : Table IMMessageRow} {which : IMMessageRow → Bool} {f : IMMessageRow → IMMessageRow}
    (hf : ∀ row, Row.id (f row) = Row.id row) (hs : ∀ row, (f row).standing = row.standing) :
    (messages.set which f hf).rows.map IMMessageRow.standing = messages.rows.map IMMessageRow.standing := by
  unfold Table.set
  rw [map_map]
  refine map_congr_left (fun row _ => ?_)
  show (if which row then f row else row).standing = row.standing
  split
  · exact hs row
  · rfl

theorem standing_replaceReactions (t : MessageTables) (messageId : Nat) (context : Option IMReactionContext) :
    (replaceReactions t messageId context).messages.rows.map IMMessageRow.standing =
      t.messages.rows.map IMMessageRow.standing := by
  cases context with
  | none => rfl
  | some context => refine standing_set ?_ ?_ <;> exact fun _ => rfl

theorem Rewrites.of_standing {t t' : MessageTables} {r : IngestResult}
    (hrows : t'.messages.rows.map IMMessageRow.standing = t.messages.rows.map IMMessageRow.standing)
    (hparts : t'.parts = t.parts) : Rewrites t r t' where
  rows := fun m' hm' => by
    have := hrows ▸ mem_map_of_mem (f := IMMessageRow.standing) hm'
    obtain ⟨m, hm, heq⟩ := mem_map.1 this
    exact Or.inl ⟨⟨m, hm, heq.symm⟩, fun part' hpart' _ => ⟨part', hparts ▸ hpart', rfl⟩⟩
  stays := fun m hm => by
    have := hrows ▸ mem_map_of_mem (f := IMMessageRow.standing) hm
    obtain ⟨m', hm', heq⟩ := mem_map.1 this
    exact ⟨m', hm', congrArg Standing.id heq, congrArg Standing.conversationId heq, congrArg Standing.deleted heq⟩
  kept := fun part hpart => Or.inl ⟨part, hparts ▸ hpart, rfl⟩

namespace Ingesting

variable {g : Ingesting} {source : IMMessage} {senderUserId searchKinds : Nat}

/-- **The row a message is saved under**: it alone changes, and it keeps its conversation and whether it is deleted. -/
theorem saveMessage_standing {stored : Option IMMessageRow} {messages messages' : Table IMMessageRow}
    {message : IMMessageRow} (h : g.saveMessage source senderUserId searchKinds messages stored = .ok (messages', message)) :
    (∀ m' ∈ messages'.rows, (m' ∈ messages.rows ∧ m'.id ≠ message.id) ∨ m' = message) ∧
      ∀ m ∈ messages.rows, ∃ m' ∈ messages'.rows, m'.id = m.id ∧ m'.conversationId = m.conversationId ∧
        m'.deleted = m.deleted := by
  cases stored with
  | none =>
    simp only [saveMessage] at h
    split at h
    · cases h
    · cases h
      refine ⟨fun m' hm' => ?_, fun m hm => ⟨m, Table.mem_insert.2 (Or.inl hm), rfl, rfl, rfl⟩⟩
      rcases Table.mem_insert.1 hm' with hold | hnew
      · have hfresh : m'.id < messages.nextId := messages.idsFresh m' hold
        exact Or.inl ⟨hold, fun hid => Nat.lt_irrefl _ (hid ▸ hfresh)⟩
      · exact Or.inr hnew
  | some row =>
    simp only [saveMessage] at h
    split at h
    · rename_i saved hsaved
      cases h
      obtain ⟨hmem, hid⟩ := Table.mem_of_first hsaved
      refine ⟨fun m' hm' => ?_, fun m hm => ⟨_, Table.mem_set.2 ⟨m, hm, rfl⟩, ?_⟩⟩
      · obtain ⟨m, hm, heq⟩ := Table.mem_set.1 hm'
        by_cases hm₁ : m.id = row.id
        · refine Or.inr (Table.eq_of_id hm' hmem ?_)
          have hm'id : m'.id = m.id := by
            rw [← heq]
            split <;> rfl
          exact (hm'id.trans hm₁).trans (of_decide_eq_true hid).symm
        · rw [if_neg (by simpa using hm₁)] at heq
          subst heq
          exact Or.inl ⟨hm, fun hid' => hm₁ (hid'.trans (of_decide_eq_true hid))⟩
      · split <;> exact ⟨rfl, rfl, rfl⟩
    · cases h

variable {cache : List (String × Int)} {t : MessageTables}

theorem writeStored_rewrites {stored : Option IMMessageRow} {changed : Bool}
    {s : StoredMessage} (hplaced : Placed (placings t.parts))
    (h : g.writeStored source senderUserId searchKinds stored changed t cache = .ok s) :
    Rewrites t s.result s.tables := by
  unfold writeStored at h
  simp only [bind_ok] at h
  obtain ⟨⟨messages, message⟩, hsave, ⟨⟨t₁, cache₁⟩, projected⟩, hproj, hret⟩ := h
  cases hret
  obtain ⟨hrows, hstays⟩ := saveMessage_standing hsave
  have hmessages : t₁.messages = messages := Projecting.messages_ensureProjection hproj
  have hstanding := standing_replaceReactions t₁ message.id source.reactionContext
  have hparts := replaceReactions_parts t₁ message.id source.reactionContext
  have hprojection := (Projecting.steps hproj).projection
  obtain ⟨hleft, hkept⟩ := Projecting.owned_ensureProjection
    (p := g.projecting source message (storeMedia message.id 0 (mediaOf source) t.media).2) (t := { t with
      messages := messages
      aliases := upsertAliases g.session.platformSessionId g.conversation.id message.id 0 source.allSourceIds t.aliases
      media := (storeMedia message.id 0 (mediaOf source) t.media).1 }) hplaced hproj
  refine ⟨fun m' hm' => ?_, fun m hm => ?_, fun part hpart => ?_⟩
  · have hin := hstanding ▸ mem_map_of_mem (f := IMMessageRow.standing) hm'
    obtain ⟨m, hm, heq⟩ := mem_map.1 hin
    have hid : m.id = m'.id := congrArg Standing.id heq
    rw [hmessages] at hm
    simp only [hparts]
    rcases hrows m hm with ⟨hold, hne⟩ | rfl
    · refine Or.inl ⟨⟨m, hold, heq.symm⟩, fun part' hpart' hm'' => ?_⟩
      rcases hleft _ (mem_map_of_mem hpart') with hin | hnew
      · exact Projecting.owned_of_mem hin
      · exact absurd (hid.trans (hm''.symm.trans hnew)) hne
    · refine Or.inr ⟨heq.symm, fun part' hpart' hm'' => ?_⟩
      show part' ∈ projected.projection
      rw [hprojection, mem_partsOf]
      exact ⟨hpart', hm''.trans hid.symm⟩
  · obtain ⟨m₁, hm₁, hid, hconv, hdel⟩ := hstays m hm
    rw [← hmessages] at hm₁
    have hin := hstanding ▸ mem_map_of_mem (f := IMMessageRow.standing) hm₁
    obtain ⟨m', hm', heq⟩ := mem_map.1 hin
    exact ⟨m', hm', (congrArg Standing.id heq).trans hid, (congrArg Standing.conversationId heq).trans hconv,
      (congrArg Standing.deleted heq).trans hdel⟩
  · simp only [hparts]
    rcases hkept part hpart with hin | hgone
    · obtain ⟨part', hpart', heq⟩ := Projecting.owned_of_mem hin
      exact Or.inl ⟨part', hpart', heq.symm⟩
    · exact Or.inr hgone

theorem keepMessage_rewrites {stored : IMMessageRow} {projectionOf : Nat → Option (List TlMessagePartRow)}
    :
    Rewrites t (g.keepMessage source stored searchKinds projectionOf t cache).result
      (g.keepMessage source stored searchKinds projectionOf t cache).tables := by
  refine Rewrites.of_standing ?_ ?_
  · unfold keepMessage
    simp only
    rw [standing_replaceReactions]
    split
    · refine standing_set ?_ ?_ <;> exact fun _ => rfl
    · rfl
  · unfold keepMessage
    simp only [replaceReactions_parts]
    split <;> rfl

theorem settle_rewrites {senderUserId : Nat} {existing : Option IMMessageAliasRow} {message : Option IMMessageRow}
    {projectionOf : Nat → Option (List TlMessagePartRow)}
    {s : StoredMessage} (hplaced : Placed (placings t.parts))
    (h : g.settle source senderUserId existing message projectionOf t cache = .ok s) : Rewrites t s.result s.tables := by
  unfold settle at h
  split at h
  · simp only at h
    split at h
    · cases h
      exact keepMessage_rewrites
    · exact writeStored_rewrites hplaced h
  · exact writeStored_rewrites hplaced h

end Ingesting

/-! ## Conversations -/

def KeepsConversations (a b : Table IMConversationRow) : Prop := ∀ s c row, a.first (isConversation s c) = some row →
  ∃ row', b.first (isConversation s c) = some row' ∧ row'.id = row.id

theorem KeepsConversations.refl (a : Table IMConversationRow) : KeepsConversations a a :=
  fun _ _ row h => ⟨row, h, rfl⟩

theorem KeepsConversations.trans {a b c : Table IMConversationRow} (h : KeepsConversations a b)
    (h' : KeepsConversations b c) : KeepsConversations a c := fun s k row hrow => by
  obtain ⟨row', hrow', hid⟩ := h s k row hrow
  obtain ⟨row'', hrow'', hid'⟩ := h' s k row' hrow'
  exact ⟨row'', hrow'', hid'.trans hid⟩

variable {a : Table IMConversationRow}

theorem keepsConversations_set {which : IMConversationRow → Bool}
    {f : IMConversationRow → IMConversationRow} (hf : ∀ row, Row.id (f row) = Row.id row)
    (hkey : ∀ row ∈ a.rows, which row = true → (f row).platformSessionId = row.platformSessionId ∧
      (f row).platformConversationId = row.platformConversationId) : KeepsConversations a (a.set which f hf) :=
  fun s c row hrow => by
    rw [Table.first_set_on (fun r hr hw => by simp [isConversation, hkey r hr hw]), hrow]
    refine ⟨_, rfl, ?_⟩
    show (if which row then f row else row).id = row.id
    split
    · exact hf row
    · rfl

theorem keepsConversations_insert {mk : Nat → IMConversationRow}
    (hmk : ∀ n, Row.id (mk n) = n) : KeepsConversations a (a.insert mk hmk) := fun s c row hrow => by
  rw [Table.first_insert, hrow]
  exact ⟨row, rfl, rfl⟩

theorem keepsConversations_upsert {which : IMConversationRow → Bool}
    {f : IMConversationRow → IMConversationRow} (hf : ∀ row, Row.id (f row) = Row.id row)
    (hkey : ∀ row, which row = true → (f row).platformSessionId = row.platformSessionId ∧
      (f row).platformConversationId = row.platformConversationId) {mk : Nat → IMConversationRow}
    (hmk : ∀ n, Row.id (mk n) = n) : KeepsConversations a (a.upsert which f hf mk hmk) := by
  unfold Table.upsert
  by_cases hany : a.rows.any which = true
  · rw [if_pos hany]
    exact keepsConversations_set hf (fun row _ => hkey row)
  · rw [if_neg hany]
    exact keepsConversations_insert hmk

theorem upsertConversation_keeps (db : Database) (session : PlatformSession) (conversation : IMConversation)
    (unreadCount : Option Nat) :
    KeepsConversations db.conversations (upsertConversation db session conversation unreadCount).1.conversations := by
  unfold upsertConversation
  simp only
  split
  · rename_i existing hfound
    obtain ⟨hmem, hkey⟩ := Table.mem_of_first hfound
    have hkey : existing.platformSessionId = session.platformSessionId ∧
        existing.platformConversationId = conversation.id := of_decide_eq_true hkey
    refine keepsConversations_set ?_ (fun row hrow hw => ?_)
    · exact fun _ => rfl
    have heq : row = existing := Table.eq_of_id hrow hmem (of_decide_eq_true hw)
    rw [heq]
    exact ⟨hkey.1.symm, hkey.2.symm⟩
  · exact keepsConversations_insert _

theorem Ingesting.ingestMessage_conversations {g : Ingesting} {w w' : Ingestion} {source : IMMessage}
    {result : IngestResult} (h : g.ingestMessage w source = .ok (w', result)) :
    w'.db.conversations = w.db.conversations := by
  unfold ingestMessage at h
  simp only [bind_ok] at h
  obtain ⟨s, -, hret⟩ := h
  cases hret
  rfl

theorem Ingesting.ingestEach_conversations {g : Ingesting} : ∀ {sources : List IMMessage} {w w' : Ingestion}
    {results : List IngestResult}, g.ingestEach w sources = .ok (w', results) →
    w'.db.conversations = w.db.conversations
  | [], w, w', results, h => by
    cases h
    rfl
  | source :: sources, w, w', results, h => by
    rw [ingestEach] at h
    simp only [bind_ok] at h
    obtain ⟨⟨w₁, result⟩, h₁, ⟨w₂, results₂⟩, h₂, hret⟩ := h
    cases hret
    exact (ingestEach_conversations h₂).trans (ingestMessage_conversations h₁)

variable {reader : MessageReader} {results : List IngestResult} {session : PlatformSession}

theorem ingestMany_keeps {db db' : Database}
    {conversation : IMConversation} {sources : List IMMessage} {allocation : Allocation}
    (h : ingestMany reader db session conversation sources allocation = .ok (db', results)) :
    KeepsConversations db.conversations db'.conversations := by
  unfold ingestMany at h
  split at h
  · cases h
  · split at h
    · cases h
      exact .refl _
    · simp only at h
      cases hrun : Ingesting.ingestEach _ (startIngestion (upsertConversation db session conversation none).1 session
            (upsertConversation db session conversation none).2 sources allocation) sources with
      | error e => rw [hrun] at h; cases h
      | ok out =>
        rw [hrun] at h
        cases h
        have hstart : (startIngestion (upsertConversation db session conversation none).1 session
            (upsertConversation db session conversation none).2 sources allocation).db.conversations =
            (upsertConversation db session conversation none).1.conversations := by
          unfold startIngestion
          split <;> rfl
        show KeepsConversations db.conversations out.1.db.conversations
        rw [Ingesting.ingestEach_conversations hrun, hstart]
        exact upsertConversation_keeps db session conversation none

theorem upsertDialogs_keeps (session : PlatformSession) : ∀ (dialogs : List IMDialog) (a : Table IMConversationRow),
    KeepsConversations a (upsertDialogs a session dialogs)
  | [], a => .refl a
  | dialog :: dialogs, a => by
    refine KeepsConversations.trans ?_ (upsertDialogs_keeps session dialogs _)
    refine keepsConversations_upsert ?_ ?_ ?_
    exact fun _ _ => ⟨rfl, rfl⟩

theorem ingestDialogMessage_conversations {row : IMConversationRow}
    {w w' : Ingestion} {allocation : Allocation} {source : Option IMMessage}
    (h : ingestDialogMessage reader session row w allocation source = .ok (w', results)) :
    w'.db.conversations = w.db.conversations := by
  cases source with
  | none => cases h; rfl
  | some source =>
    unfold ingestDialogMessage at h
    simp only [bind_ok] at h
    obtain ⟨⟨w₁, result⟩, h₁, hret⟩ := h
    cases hret
    exact Ingesting.ingestMessage_conversations h₁

theorem ingestEachDialog_keeps : ∀ {dialogs : List IMDialog}
    {w w' : Ingestion} {results : List IngestResult}, ingestEachDialog reader session w dialogs = .ok (w', results) →
    KeepsConversations w.db.conversations w'.db.conversations
  | [], w, w', results, h => by
    cases h
    exact .refl _
  | dialog :: dialogs, w, w', results, h => by
    rw [ingestEachDialog] at h
    simp only [bind_ok] at h
    obtain ⟨⟨w₁, results₁⟩, h₁, ⟨w₂, results₂⟩, h₂, hret⟩ := h
    cases hret
    refine KeepsConversations.trans ?_ (ingestEachDialog_keeps h₂)
    unfold ingestDialog at h₁
    split at h₁
    · cases h₁
    · simp only [bind_ok] at h₁
      obtain ⟨⟨w₃, latest⟩, h₃, ⟨w₄, boundary⟩, h₄, hret⟩ := h₁
      cases hret
      have hsame : w₄.db.conversations = w.db.conversations :=
        (ingestDialogMessage_conversations h₄).trans (ingestDialogMessage_conversations h₃)
      rw [← hsame]
      refine keepsConversations_set ?_ ?_
      · exact fun _ => rfl
      · exact fun _ _ _ => ⟨rfl, rfl⟩

/-- **No operation gives a conversation another row.** -/
theorem apply_keeps {db db' : Database} {op : StoreOperation}
    (h : MessageStore.apply reader db op = .ok (db', results)) :
    KeepsConversations db.conversations db'.conversations := by
  cases op with
  | ingest session conversation source allocation => exact ingestMany_keeps h
  | ingestMany session conversation sources allocation => exact ingestMany_keeps h
  | ingestDialogs session dialogs =>
    unfold MessageStore.apply ingestDialogs at h
    simp only at h
    split at h
    · cases h
    · cases hrun : ingestEachDialog reader session
          { db := { db with conversations := upsertDialogs db.conversations session dialogs }, cache := [], prefetch := none }
          dialogs with
      | error e => rw [hrun] at h; cases h
      | ok out =>
        rw [hrun] at h
        cases h
        exact (upsertDialogs_keeps session dialogs db.conversations).trans (ingestEachDialog_keeps hrun)
  | ingestRequest session request now =>
    unfold MessageStore.apply ingestRequest at h
    simp only [bind_ok] at h
    obtain ⟨⟨w, result⟩, h₁, hret⟩ := h
    cases hret
    have hsame := Ingesting.ingestMessage_conversations h₁
    refine (upsertConversation_keeps { db with
      requests := (upsertRequest reader db.requests session request now).1 } session requestInboxConversation none).trans ?_
    rw [← hsame]
    simp only
    split
    · refine keepsConversations_set ?_ ?_
      exact fun _ _ _ => ⟨rfl, rfl⟩
    · exact .refl _
  | deleteMessages session conversation ids =>
    cases h
    exact upsertConversation_keeps db session conversation none

end Crossgram
