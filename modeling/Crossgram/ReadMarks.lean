import Crossgram.ReplyTargets
/-!
# ReadMarks — read marks and unread counts (packages/bridge/src/message-store.ts, dialogs.ts, update-manager.ts)

A read mark names a message.  `markRead` sets the conversation's unread count to the number of incoming messages after
that message, whatever was marked before, and `_publishRead` tells the devices, once for each mark.  Marks come from the
platform and from `readHistory` calls, which run in the background: they wait for the platform, then join the
session's queue of events, where one is handled after another.
-/
namespace Crossgram

open List

/-- `REQUEST_INBOX_CONVERSATION_ID`. -/
def requestInboxConversationId : String := "bridge:request-inbox"

/-! ## A mark in the store -/

structure ReadTarget where
  message : IMMessageRow
  tlMessageId : Int

def maxTlMessageId : List TlMessagePartRow → Option Int
  | []        => none
  | part :: l => some (l.foldl (fun maximum part => max maximum part.tlMessageId) part.tlMessageId)

def IMMessageRow.after (message other : IMMessageRow) : Bool :=
  other.timestamp < message.timestamp ∨ (message.timestamp = other.timestamp ∧ other.id < message.id)

section Conversation

variable (t : MessageTables) (session : PlatformSession) (conversation : IMConversationRow)

def readTarget (upToMessageId : String) : Option ReadTarget :=
  (t.aliases.first (isAlias session.platformSessionId conversation.id upToMessageId)).bind (fun known =>
    ((t.messageById known.messageId).filter (fun message => message.deleted = false)).bind (fun message =>
      (maxTlMessageId (partsOf t.parts message.id)).map (fun tlMessageId => ⟨message, tlMessageId⟩)))

def incoming : List IMMessageRow :=
  t.messages.get (fun row => row.conversationId = conversation.id ∧ row.deleted = false ∧ row.outgoing = false)

def isLaterIncoming (message candidate : IMMessageRow) : Bool :=
  if conversation.platformConversationId = requestInboxConversationId then candidate.after message
  else message.timestamp < candidate.timestamp

def laterIncoming (message : IMMessageRow) : List IMMessageRow :=
  (incoming t conversation).filter (isLaterIncoming conversation message)

end Conversation

structure ReadResult where
  conversation : IMConversationRow
  message : IMMessageRow
  tlMessageId : Int
  unreadCount : Nat

def setUnreadCount (db : Database) (conversationId unreadCount : Nat) : Database :=
  { db with
    conversations := db.conversations.set (fun row => row.id = conversationId)
      (fun row => { row with unreadCount := unreadCount }) (fun _ => rfl) }

def markRead (db : Database) (session : PlatformSession) (conversationId upToMessageId : String) :
    Database × Option ReadResult :=
  match db.conversations.first (isConversation session.platformSessionId conversationId) with
  | none => (db, none)
  | some conversation =>
    match readTarget db.tables session conversation upToMessageId with
    | none => (db, none)
    | some target =>
      let unreadCount := (laterIncoming db.tables conversation target.message).length
      (setUnreadCount db conversation.id unreadCount,
        some ⟨conversation, target.message, target.tlMessageId, unreadCount⟩)

/-! ## Reads in the background -/

inductive ReadOutcome
  | failed | unreached | reached
deriving DecidableEq

structure ReadUpdate where
  maxId : Int
  stillUnreadCount : Nat

structure ReadMark where
  upToMessageId : String
  outcome : ReadOutcome

structure ReadState where
  db : Database
  pending : List String
  queue : List String
  handled : List ReadMark
  published : List String
  updates : List ReadUpdate

inductive ReadAction
  | readHistory (tlMessageId : Int)
  | acknowledge (index : Nat)
  | refuse (index : Nat)
  | event (upToMessageId : String)
  | handle (outcome : ReadOutcome)

section Reads

-- `refOf` is the message a Telegram id names (`_findReadProjection`, `_tlToMessage`).
variable (session : PlatformSession) (conversationId : String) (refOf : Int → Option String)

/-- `_publishRead`: a mark that is published is not published again. -/
def publishRead (s : ReadState) (upToMessageId : String) (result : ReadResult) (outcome : ReadOutcome) : ReadState :=
  if upToMessageId ∈ s.published then s
  else
    match outcome with
    | .failed    => s
    | .unreached => { s with updates := s.updates ++ [⟨result.tlMessageId, result.unreadCount⟩] }
    | .reached   =>
      { s with
        updates := s.updates ++ [⟨result.tlMessageId, result.unreadCount⟩]
        published := s.published ++ [upToMessageId] }

/-- The `read` branch of `_ingestEvent`. -/
def handleRead (s : ReadState) (mark : ReadMark) : ReadState :=
  let marked := markRead s.db session conversationId mark.upToMessageId
  let s := { s with db := marked.1, handled := s.handled ++ [mark] }
  match marked.2 with
  | none        => s
  | some result => publishRead s mark.upToMessageId result mark.outcome

/-- One step.  A background call that is acknowledged joins the queue; a conversation of the bridge itself has no
platform to ask and joins it at any time. -/
def ReadState.step (s : ReadState) : ReadAction → ReadState
  | .readHistory tlMessageId =>
    if tlMessageId ≤ 0 then s
    else
      match refOf tlMessageId with
      | none     => s
      | some ref => { s with pending := s.pending ++ [ref] }
  | .acknowledge index =>
    match s.pending[index]? with
    | none     => s
    | some ref => { s with pending := s.pending.eraseIdx index, queue := s.queue ++ [ref] }
  | .refuse index => { s with pending := s.pending.eraseIdx index }
  | .event upToMessageId => { s with queue := s.queue ++ [upToMessageId] }
  | .handle outcome =>
    match s.queue with
    | []            => s
    | upTo :: queue => handleRead session conversationId { s with queue := queue } ⟨upTo, outcome⟩

def ReadState.run (s : ReadState) (actions : List ReadAction) : ReadState :=
  actions.foldl (ReadState.step session conversationId refOf) s

end Reads

/-- A session whose marks were not handled yet; some may have been published in an earlier run. -/
def ReadState.start (db : Database) (published : List String) : ReadState :=
  { db := db, pending := [], queue := [], handled := [], published := published, updates := [] }

def unreadCountOf (db : Database) (session : PlatformSession) (conversationId : String) : Option Nat :=
  (db.conversations.first (isConversation session.platformSessionId conversationId)).map (fun row => row.unreadCount)

/-! ## What one mark does -/

section Mark

variable {t : MessageTables} {session : PlatformSession} {conversation : IMConversationRow} {a b c : IMMessageRow}

theorem isLaterIncoming_mono (h : ¬a.after b = true) (hc : isLaterIncoming conversation b c = true) :
    isLaterIncoming conversation a c = true := by
  unfold isLaterIncoming at hc ⊢
  simp only [IMMessageRow.after, decide_eq_true_eq, not_or, not_and] at h hc ⊢
  split
  · rename_i hinbox
    rw [if_pos hinbox, decide_eq_true_eq] at hc
    rw [decide_eq_true_eq]
    omega
  · rename_i hinbox
    rw [if_neg hinbox, decide_eq_true_eq] at hc
    rw [decide_eq_true_eq]
    omega

def NothingBetween (t : MessageTables) (conversation : IMConversationRow) (a b : IMMessageRow) : Prop :=
  ∀ row ∈ incoming t conversation, isLaterIncoming conversation b row = true → isLaterIncoming conversation a row = true

theorem nothingBetween_of_not_after (h : ¬a.after b = true) : NothingBetween t conversation a b :=
  fun _ _ hrow => isLaterIncoming_mono h hrow

theorem NothingBetween.trans (hab : NothingBetween t conversation a b) (hbc : NothingBetween t conversation b c) :
    NothingBetween t conversation a c :=
  fun row hrow h => hab row hrow (hbc row hrow h)

theorem NothingBetween.length_le (h : NothingBetween t conversation a b) :
    (laterIncoming t conversation b).length ≤ (laterIncoming t conversation a).length := by
  unfold laterIncoming
  rw [← countP_eq_length_filter, ← countP_eq_length_filter]
  exact countP_mono_left h

theorem nothingBetween_of_length (h : NothingBetween t conversation a b)
    (hlength : (laterIncoming t conversation a).length = (laterIncoming t conversation b).length) :
    NothingBetween t conversation b a := by
  have hfilter : laterIncoming t conversation b =
      (laterIncoming t conversation a).filter (isLaterIncoming conversation b) := by
    unfold laterIncoming
    rw [filter_filter]
    refine filter_congr (fun row hrow => ?_)
    rw [Bool.eq_iff_iff, Bool.and_eq_true]
    exact ⟨fun hb => ⟨hb, h row hrow hb⟩, fun hb => hb.1⟩
  rw [hfilter, eq_comm, length_filter_eq_length_iff] at hlength
  intro row hrow hlater
  exact hlength row (mem_filter.2 ⟨hrow, hlater⟩)

end Mark

section Spec

variable {db : Database} {session : PlatformSession} {conversationId upToMessageId : String}
  {conversation : IMConversationRow} {target : ReadTarget}

theorem markRead_none
    (hc : db.conversations.first (isConversation session.platformSessionId conversationId) = some conversation)
    (ht : readTarget db.tables session conversation upToMessageId = none) :
    markRead db session conversationId upToMessageId = (db, none) := by
  simp only [markRead, hc, ht]

/-- **A mark sets the count to the messages after it.** -/
theorem markRead_some
    (hc : db.conversations.first (isConversation session.platformSessionId conversationId) = some conversation)
    (ht : readTarget db.tables session conversation upToMessageId = some target) :
    markRead db session conversationId upToMessageId =
      (setUnreadCount db conversation.id (laterIncoming db.tables conversation target.message).length,
        some ⟨conversation, target.message, target.tlMessageId,
          (laterIncoming db.tables conversation target.message).length⟩) := by
  simp only [markRead, hc, ht]

theorem first_setUnreadCount (n : Nat)
    (hc : db.conversations.first (isConversation session.platformSessionId conversationId) = some conversation) :
    (setUnreadCount db conversation.id n).conversations.first
      (isConversation session.platformSessionId conversationId) = some { conversation with unreadCount := n } := by
  unfold setUnreadCount
  dsimp only
  rw [Table.first_set, hc, Option.map_some, if_pos (decide_eq_true rfl)]
  exact fun _ _ => rfl

theorem unreadCountOf_markRead
    (hc : db.conversations.first (isConversation session.platformSessionId conversationId) = some conversation)
    (ht : readTarget db.tables session conversation upToMessageId = some target) :
    unreadCountOf (markRead db session conversationId upToMessageId).1 session conversationId =
      some (laterIncoming db.tables conversation target.message).length := by
  rw [markRead_some hc ht, unreadCountOf, first_setUnreadCount _ hc]
  rfl

theorem readTarget_unread (t : MessageTables) (session : PlatformSession) (conversation : IMConversationRow) (n : Nat) :
    readTarget t session { conversation with unreadCount := n } = readTarget t session conversation := rfl

theorem laterIncoming_unread (t : MessageTables) (conversation : IMConversationRow) (n : Nat) :
    laterIncoming t { conversation with unreadCount := n } = laterIncoming t conversation := rfl

end Spec

/-! ## Marks in order -/

section Order

variable (t : MessageTables) (session : PlatformSession) (conversation : IMConversationRow) (published : List String)

def targetOf (mark : ReadMark) : Option ReadTarget := readTarget t session conversation mark.upToMessageId

structure Sent (before : List ReadMark) (mark : ReadMark) : Prop where
  known : ∃ target, targetOf t session conversation mark = some target
  succeeds : mark.outcome ≠ .failed
  fresh : mark.upToMessageId ∉ published
  first : ∀ m ∈ before, m.upToMessageId = mark.upToMessageId → m.outcome ≠ .reached

def MarkUpdate (before : List ReadMark) (mark : ReadMark) (u : ReadUpdate) : Prop :=
  Sent t session conversation published before mark ∧ ∃ target, targetOf t session conversation mark = some target ∧
    u = ⟨target.tlMessageId, (laterIncoming t conversation target.message).length⟩

/-- A mark that does not go back behind those handled before: no incoming message lies after it and not after one of
them, and its Telegram id, when it is sent, is not below one sent before. -/
structure Follows (before : List ReadMark) (mark : ReadMark) : Prop where
  counts : ∀ m ∈ before, ∀ target target', targetOf t session conversation m = some target →
    targetOf t session conversation mark = some target' → NothingBetween t conversation target.message target'.message
  ids : Sent t session conversation published before mark → ∀ earlier m later, before = earlier ++ m :: later →
    Sent t session conversation published earlier m → ∀ target target', targetOf t session conversation m = some target →
      targetOf t session conversation mark = some target' → target.tlMessageId ≤ target'.tlMessageId

inductive MarksInOrder : List ReadMark → Prop
  | nil : MarksInOrder []
  | snoc {before : List ReadMark} {mark : ReadMark} : MarksInOrder before →
      Follows t session conversation published before mark → MarksInOrder (before ++ [mark])

theorem marksInOrder_snoc {before : List ReadMark} {mark : ReadMark} :
    MarksInOrder t session conversation published (before ++ [mark]) ↔
      MarksInOrder t session conversation published before ∧ Follows t session conversation published before mark := by
  refine ⟨fun h => ?_, fun h => .snoc h.1 h.2⟩
  generalize hl : before ++ [mark] = l at h
  cases h with
  | nil => simp at hl
  | snoc hbefore hfollows =>
    obtain ⟨rfl, hx⟩ := append_inj' hl rfl
    cases hx
    exact ⟨hbefore, hfollows⟩

def Newest (marks : List ReadMark) (target : ReadTarget) : Prop :=
  ∀ m ∈ marks, ∀ other, targetOf t session conversation m = some other → ¬other.message.after target.message = true

end Order

/-- Reading went forward so far: the stored count is that of the newest mark alone, and the updates that were sent go
up in ids and down in counts. -/
structure ReadsForward (db : Database) (session : PlatformSession) (conversationId : String)
    (conversation : IMConversationRow) (s : ReadState) : Prop where
  newest : ∀ mark ∈ s.handled, ∀ target, targetOf db.tables session conversation mark = some target →
    Newest db.tables session conversation s.handled target →
      unreadCountOf s.db session conversationId =
        unreadCountOf (markRead db session conversationId mark.upToMessageId).1 session conversationId
  updates : s.updates.Pairwise (fun u v => u.maxId ≤ v.maxId ∧ v.stillUnreadCount ≤ u.stillUnreadCount)

/-! ## Runs -/

section Run

variable {db : Database} {session : PlatformSession} {conversationId : String} {conversation : IMConversationRow}
  {published : List String} {refOf : Int → Option String} {s : ReadState}

structure Tracks (db : Database) (session : PlatformSession) (conversationId : String) (conversation : IMConversationRow)
    (published : List String) (s : ReadState) : Prop where
  tables : s.db.tables = db.tables
  row : ∃ n, s.db.conversations.first (isConversation session.platformSessionId conversationId) =
    some { conversation with unreadCount := n }
  delivered : ∀ id, (∃ target, readTarget db.tables session conversation id = some target) →
    (id ∈ s.published ↔ id ∈ published ∨ ∃ m ∈ s.handled, m.upToMessageId = id ∧ m.outcome = .reached)
  updates : ∀ u, u ∈ s.updates ↔ ∃ earlier m later, s.handled = earlier ++ m :: later ∧
    MarkUpdate db.tables session conversation published earlier m u

theorem tracks_start
    (hc : db.conversations.first (isConversation session.platformSessionId conversationId) = some conversation) :
    Tracks db session conversationId conversation published (ReadState.start db published) where
  tables := rfl
  row := ⟨conversation.unreadCount, hc⟩
  delivered := fun id _ => by simp [ReadState.start]
  updates := fun u => by simp [ReadState.start]

theorem exists_split_snoc {α : Type} {P : List α → α → Prop} {l : List α} {x : α} :
    (∃ earlier m later, l ++ [x] = earlier ++ m :: later ∧ P earlier m) ↔
      (∃ earlier m later, l = earlier ++ m :: later ∧ P earlier m) ∨ P l x := by
  constructor
  · rintro ⟨earlier, m, later, h, hp⟩
    rcases eq_nil_or_concat later with rfl | ⟨later, y, rfl⟩
    · obtain ⟨rfl, hx⟩ := append_inj' h rfl
      cases hx
      exact Or.inr hp
    · rw [concat_eq_append, ← cons_append, ← append_assoc] at h
      obtain ⟨rfl, hx⟩ := append_inj' h rfl
      exact Or.inl ⟨earlier, m, later, rfl, hp⟩
  · rintro (⟨earlier, m, later, rfl, hp⟩ | hp)
    · exact ⟨earlier, m, later ++ [x], by simp, hp⟩
    · exact ⟨l, x, [], rfl, hp⟩

section Publish

variable {upToMessageId : String} {result : ReadResult} {outcome : ReadOutcome}

@[simp] theorem publishRead_db : (publishRead s upToMessageId result outcome).db = s.db := by
  unfold publishRead
  split
  · rfl
  · cases outcome <;> rfl

@[simp] theorem publishRead_handled : (publishRead s upToMessageId result outcome).handled = s.handled := by
  unfold publishRead
  split
  · rfl
  · cases outcome <;> rfl

theorem publishRead_updates : (publishRead s upToMessageId result outcome).updates =
    if upToMessageId ∉ s.published ∧ outcome ≠ .failed then s.updates ++ [⟨result.tlMessageId, result.unreadCount⟩]
    else s.updates := by
  unfold publishRead
  by_cases hp : upToMessageId ∈ s.published
  · simp [hp]
  · cases outcome <;> simp [hp]

theorem publishRead_published : (publishRead s upToMessageId result outcome).published =
    if upToMessageId ∉ s.published ∧ outcome = .reached then s.published ++ [upToMessageId] else s.published := by
  unfold publishRead
  by_cases hp : upToMessageId ∈ s.published
  · simp [hp]
  · cases outcome <;> simp [hp]

end Publish

section Handle

variable (hc : db.conversations.first (isConversation session.platformSessionId conversationId) = some conversation)
  (h : Tracks db session conversationId conversation published s) {mark : ReadMark}
include hc h

omit hc in
theorem Tracks.handle_unknown (ht : targetOf db.tables session conversation mark = none) :
    handleRead session conversationId s mark = { s with handled := s.handled ++ [mark] } := by
  obtain ⟨n, hrow⟩ := h.row
  have hnone : readTarget s.db.tables session { conversation with unreadCount := n } mark.upToMessageId = none := by
    rw [h.tables, readTarget_unread]
    exact ht
  unfold handleRead
  rw [markRead_none hrow hnone]

variable {target : ReadTarget}

omit hc in
theorem Tracks.handle_known (ht : targetOf db.tables session conversation mark = some target) :
    handleRead session conversationId s mark = publishRead
      { s with
        db := setUnreadCount s.db conversation.id (laterIncoming db.tables conversation target.message).length
        handled := s.handled ++ [mark] }
      mark.upToMessageId
      ⟨{ conversation with unreadCount := (unreadCountOf s.db session conversationId).getD 0 }, target.message,
        target.tlMessageId, (laterIncoming db.tables conversation target.message).length⟩ mark.outcome := by
  obtain ⟨n, hrow⟩ := h.row
  have hsome : readTarget s.db.tables session { conversation with unreadCount := n } mark.upToMessageId = some target := by
    rw [h.tables, readTarget_unread]
    exact ht
  unfold handleRead
  rw [markRead_some hrow hsome, h.tables, laterIncoming_unread, unreadCountOf, hrow]
  rfl

omit hc in
theorem Tracks.sent_iff (ht : targetOf db.tables session conversation mark = some target) :
    Sent db.tables session conversation published s.handled mark ↔
      mark.upToMessageId ∉ s.published ∧ mark.outcome ≠ .failed := by
  rw [h.delivered mark.upToMessageId ⟨target, ht⟩, not_or]
  constructor
  · intro hs
    exact ⟨⟨hs.fresh, fun ⟨m, hm, hid, hreached⟩ => hs.first m hm hid hreached⟩, hs.succeeds⟩
  · rintro ⟨⟨hfresh, hfirst⟩, hsucceeds⟩
    exact ⟨⟨target, ht⟩, hsucceeds, hfresh, fun m hm hid hreached => hfirst ⟨m, hm, hid, hreached⟩⟩

omit hc in
theorem Tracks.updates_known (ht : targetOf db.tables session conversation mark = some target) :
    (Sent db.tables session conversation published s.handled mark ∧
      (handleRead session conversationId s mark).updates =
        s.updates ++ [⟨target.tlMessageId, (laterIncoming db.tables conversation target.message).length⟩]) ∨
    (¬Sent db.tables session conversation published s.handled mark ∧
      (handleRead session conversationId s mark).updates = s.updates) := by
  rw [h.handle_known ht, publishRead_updates, h.sent_iff ht]
  dsimp only
  by_cases hsent : mark.upToMessageId ∉ s.published ∧ mark.outcome ≠ .failed
  · exact Or.inl ⟨hsent, if_pos hsent⟩
  · exact Or.inr ⟨hsent, if_neg hsent⟩

omit hc in
theorem Tracks.unread_known (ht : targetOf db.tables session conversation mark = some target) :
    unreadCountOf (handleRead session conversationId s mark).db session conversationId =
      some (laterIncoming db.tables conversation target.message).length := by
  obtain ⟨n, hrow⟩ := h.row
  rw [h.handle_known ht, publishRead_db, unreadCountOf]
  have hfirst := first_setUnreadCount (laterIncoming db.tables conversation target.message).length hrow
  rw [hfirst]
  rfl

omit hc in
theorem Tracks.handled_eq : (handleRead session conversationId s mark).handled = s.handled ++ [mark] := by
  cases ht : targetOf db.tables session conversation mark with
  | none => rw [h.handle_unknown ht]
  | some target => rw [h.handle_known ht, publishRead_handled]

omit hc in
/-- **Handling a mark keeps track.** -/
theorem Tracks.handle : Tracks db session conversationId conversation published
    (handleRead session conversationId s mark) := by
  obtain ⟨n, hrow⟩ := h.row
  cases ht : targetOf db.tables session conversation mark with
  | none =>
    have hunsent : ¬Sent db.tables session conversation published s.handled mark := fun hs => by
      obtain ⟨target, hk⟩ := hs.known
      rw [ht] at hk
      cases hk
    rw [h.handle_unknown ht]
    refine ⟨h.tables, h.row, fun id hknown => ?_, fun u => ?_⟩
    · have hne : mark.upToMessageId ≠ id := fun hid => by
        obtain ⟨target, hk⟩ := hknown
        rw [← hid] at hk
        rw [targetOf, hk] at ht
        cases ht
      rw [h.delivered id hknown]
      simp [hne]
    · rw [h.updates u, exists_split_snoc (P := fun earlier m =>
        MarkUpdate db.tables session conversation published earlier m u)]
      exact ⟨Or.inl, fun hor => hor.resolve_right (fun hs => hunsent hs.1)⟩
  | some target =>
    refine ⟨?_, ?_, fun id hknown => ?_, fun u => ?_⟩
    · rw [h.handle_known ht, publishRead_db]
      exact h.tables
    · rw [h.handle_known ht, publishRead_db]
      have hfirst := first_setUnreadCount (laterIncoming db.tables conversation target.message).length hrow
      exact ⟨_, hfirst⟩
    · rw [h.handled_eq, h.handle_known ht, publishRead_published]
      dsimp only
      have hold := h.delivered id hknown
      by_cases hid : mark.upToMessageId = id
      · subst hid
        by_cases hnew : mark.upToMessageId ∉ s.published ∧ mark.outcome = .reached
        · simp [hnew]
        · rw [if_neg hnew, hold]
          have hnot : mark.upToMessageId ∈ s.published ∨ mark.outcome ≠ .reached := by
            rw [Decidable.or_iff_not_imp_left]
            exact fun hp hreached => hnew ⟨hp, hreached⟩
          constructor
          · rintro (hp | ⟨m, hm, hrest⟩)
            · exact Or.inl hp
            · exact Or.inr ⟨m, mem_append_left _ hm, hrest⟩
          · rintro (hp | ⟨m, hm, hmid, hreached⟩)
            · exact Or.inl hp
            · rcases mem_append.1 hm with hm | hm
              · exact Or.inr ⟨m, hm, hmid, hreached⟩
              · rw [mem_singleton.1 hm] at hreached
                exact hold.1 (hnot.resolve_right (fun hne => hne hreached))
      · have hmem : id ∈ (if mark.upToMessageId ∉ s.published ∧ mark.outcome = .reached then
            s.published ++ [mark.upToMessageId] else s.published) ↔ id ∈ s.published := by
          split
          · simp [Ne.symm hid]
          · exact Iff.rfl
        rw [hmem, hold]
        simp [hid]
    · rw [h.handled_eq, exists_split_snoc (P := fun earlier m =>
        MarkUpdate db.tables session conversation published earlier m u), ← h.updates u]
      rcases h.updates_known ht with ⟨hsent, hupdates⟩ | ⟨hunsent, hupdates⟩
      · rw [hupdates, mem_append, mem_singleton]
        refine or_congr_right ⟨fun hu => ⟨hsent, target, ht, hu⟩, ?_⟩
        rintro ⟨_, target', ht', hu⟩
        rw [ht] at ht'
        cases ht'
        exact hu
      · rw [hupdates]
        exact ⟨Or.inl, fun hor => hor.resolve_right (fun hs => hunsent hs.1)⟩

end Handle

/-! ## Going forward -/

theorem exists_newest (t : MessageTables) (session : PlatformSession) (conversation : IMConversationRow) :
    ∀ (marks : List ReadMark), (∃ m ∈ marks, ∃ target, targetOf t session conversation m = some target) →
      ∃ m ∈ marks, ∃ target, targetOf t session conversation m = some target ∧ Newest t session conversation marks target
  | [],      h => by
    obtain ⟨m, hm, _⟩ := h
    cases hm
  | x :: l, h => by
    by_cases hl : ∃ m ∈ l, ∃ target, targetOf t session conversation m = some target
    · obtain ⟨m, hm, target, ht, hnewest⟩ := exists_newest t session conversation l hl
      by_cases hx : ∃ other, targetOf t session conversation x = some other ∧ other.message.after target.message = true
      · obtain ⟨other, hother, hafter⟩ := hx
        refine ⟨x, mem_cons_self, other, hother, fun m' hm' o' ho' hc => ?_⟩
        rcases mem_cons.1 hm' with rfl | hm'
        · rw [hother] at ho'
          cases ho'
          simp [IMMessageRow.after] at hc
        · refine hnewest m' hm' o' ho' ?_
          simp only [IMMessageRow.after, decide_eq_true_eq] at hc hafter ⊢
          omega
      · refine ⟨m, mem_cons_of_mem _ hm, target, ht, fun m' hm' o' ho' hc => ?_⟩
        rcases mem_cons.1 hm' with rfl | hm'
        · exact hx ⟨o', ho', hc⟩
        · exact hnewest m' hm' o' ho' hc
    · obtain ⟨m, hm, target, ht⟩ := h
      have hmx : m = x := (mem_cons.1 hm).resolve_right (fun hm => hl ⟨m, hm, target, ht⟩)
      subst hmx
      refine ⟨m, mem_cons_self, target, ht, fun m' hm' o' ho' hc => ?_⟩
      rcases mem_cons.1 hm' with rfl | hm'
      · rw [ht] at ho'
        cases ho'
        simp [IMMessageRow.after] at hc
      · exact hl ⟨m', hm', o', ho'⟩

section Forward

variable (hc : db.conversations.first (isConversation session.platformSessionId conversationId) = some conversation)
  (h : Tracks db session conversationId conversation published s) {mark : ReadMark}
include hc h

theorem ReadsForward.handle (hf : ReadsForward db session conversationId conversation s)
    (hfollows : Follows db.tables session conversation published s.handled mark) :
    ReadsForward db session conversationId conversation (handleRead session conversationId s mark) := by
  cases ht : targetOf db.tables session conversation mark with
  | none =>
    rw [h.handle_unknown ht]
    refine ⟨fun m hm target htm hnewest => ?_, hf.updates⟩
    rcases mem_append.1 hm with hm | hm
    · exact hf.newest m hm target htm (fun m' hm' => hnewest m' (mem_append_left _ hm'))
    · rw [mem_singleton.1 hm, ht] at htm
      cases htm
  | some target =>
    constructor
    · intro m hm target' htm hnewest
      rw [h.handled_eq] at hm hnewest
      rw [h.unread_known ht, unreadCountOf_markRead hc htm]
      have hback : NothingBetween db.tables conversation target.message target'.message :=
        nothingBetween_of_not_after (hnewest mark (by simp) target ht)
      have hforth : NothingBetween db.tables conversation target'.message target.message := by
        rcases mem_append.1 hm with hm | hm
        · exact hfollows.counts m hm target' target htm ht
        · rw [mem_singleton.1 hm, ht] at htm
          cases htm
          exact fun _ _ hrow => hrow
      rw [Nat.le_antisymm hforth.length_le hback.length_le]
    · rcases h.updates_known ht with ⟨hsent, hupdates⟩ | ⟨_, hupdates⟩
      · rw [hupdates, pairwise_append]
        refine ⟨hf.updates, pairwise_singleton _ _, fun u hu v hv => ?_⟩
        obtain ⟨earlier, m, later, hsplit, hm, target', htm, rfl⟩ := (h.updates u).1 hu
        rw [mem_singleton.1 hv]
        refine ⟨hfollows.ids hsent earlier m later hsplit hm target' target htm ht, ?_⟩
        exact (hfollows.counts m (by simp [hsplit]) target' target htm ht).length_le
      · rw [hupdates]
        exact hf.updates

/-- **A mark after which reading went forward follows those before it.** -/
theorem Follows.of_readsForward
    (hf : ReadsForward db session conversationId conversation (handleRead session conversationId s mark)) :
    Follows db.tables session conversation published s.handled mark := by
  constructor
  · intro m hm target target' htm ht
    obtain ⟨n, hn, newest, htn, hnewest⟩ := exists_newest db.tables session conversation
      (s.handled ++ [mark]) ⟨mark, by simp, target', ht⟩
    have hcount := hf.newest n (by rw [h.handled_eq]; exact hn) newest htn (by rw [h.handled_eq]; exact hnewest)
    rw [h.unread_known ht, unreadCountOf_markRead hc htn, Option.some.injEq] at hcount
    -- the newest mark counts what this one counts, and so has the same messages after it
    have hback : NothingBetween db.tables conversation target'.message newest.message :=
      nothingBetween_of_not_after (hnewest mark (by simp) target' ht)
    have hforth : NothingBetween db.tables conversation newest.message target'.message :=
      nothingBetween_of_length hback hcount
    have hm' : NothingBetween db.tables conversation target.message newest.message :=
      nothingBetween_of_not_after (hnewest m (mem_append_left _ hm) target htm)
    exact hm'.trans hforth
  · intro hsent earlier m later hsplit hm target target' htm ht
    rcases h.updates_known ht with ⟨_, hupdates⟩ | ⟨hunsent, _⟩
    · have hpair := hf.updates
      rw [hupdates, pairwise_append] at hpair
      have hu := (h.updates ⟨target.tlMessageId, (laterIncoming db.tables conversation target.message).length⟩).2
        ⟨earlier, m, later, hsplit, hm, target, htm, rfl⟩
      exact (hpair.2.2 _ hu _ (mem_singleton.2 rfl)).1
    · exact absurd hsent hunsent

end Forward

structure SameReads (s s' : ReadState) : Prop where
  db : s'.db = s.db
  handled : s'.handled = s.handled
  published : s'.published = s.published
  updates : s'.updates = s.updates

theorem Tracks.congr {s' : ReadState} (h : Tracks db session conversationId conversation published s)
    (hsame : SameReads s s') : Tracks db session conversationId conversation published s' where
  tables := hsame.db ▸ h.tables
  row := hsame.db ▸ h.row
  delivered := by
    rw [hsame.published, hsame.handled]
    exact h.delivered
  updates := by
    rw [hsame.updates, hsame.handled]
    exact h.updates

theorem readsForward_congr {s' : ReadState} (hsame : SameReads s s') :
    ReadsForward db session conversationId conversation s' ↔ ReadsForward db session conversationId conversation s := by
  constructor
  · intro hf
    have hnewest := hf.newest
    rw [hsame.handled, hsame.db] at hnewest
    exact ⟨hnewest, hsame.updates ▸ hf.updates⟩
  · intro hf
    refine ⟨?_, hsame.updates ▸ hf.updates⟩
    rw [hsame.handled, hsame.db]
    exact hf.newest

theorem ReadState.step_cases (session : PlatformSession) (conversationId : String) (refOf : Int → Option String)
    (s : ReadState) (action : ReadAction) :
    SameReads s (s.step session conversationId refOf action) ∨
      ∃ s' mark, SameReads s s' ∧ s.step session conversationId refOf action = handleRead session conversationId s' mark := by
  cases action with
  | readHistory tlMessageId =>
    refine Or.inl ?_
    unfold ReadState.step
    dsimp only
    split
    · exact ⟨rfl, rfl, rfl, rfl⟩
    · split <;> exact ⟨rfl, rfl, rfl, rfl⟩
  | acknowledge index =>
    refine Or.inl ?_
    unfold ReadState.step
    dsimp only
    split <;> exact ⟨rfl, rfl, rfl, rfl⟩
  | refuse index => exact Or.inl ⟨rfl, rfl, rfl, rfl⟩
  | event upToMessageId => exact Or.inl ⟨rfl, rfl, rfl, rfl⟩
  | handle outcome =>
    unfold ReadState.step
    dsimp only
    split
    · exact Or.inl ⟨rfl, rfl, rfl, rfl⟩
    · rename_i upTo queue _
      exact Or.inr ⟨{ s with queue := queue }, ⟨upTo, outcome⟩, ⟨rfl, rfl, rfl, rfl⟩, rfl⟩

variable (hc : db.conversations.first (isConversation session.platformSessionId conversationId) = some conversation)
include hc

theorem tracks_run (published : List String) (refOf : Int → Option String) (actions : List ReadAction) :
    Tracks db session conversationId conversation published
      ((ReadState.start db published).run session conversationId refOf actions) := by
  refine List.foldlRecOn actions _ (tracks_start hc) (fun s h action _ => ?_)
  rcases ReadState.step_cases session conversationId refOf s action with
    hsame | ⟨s', mark, hsame, heq⟩
  · exact h.congr hsame
  · rw [heq]
    exact (h.congr hsame).handle

/-- **Reading goes forward through a whole run exactly when its marks are handled in order.** -/
theorem readsForward_run_iff (published : List String) (refOf : Int → Option String) (actions : List ReadAction) :
    (∀ part, part <+: actions → ReadsForward db session conversationId conversation
      ((ReadState.start db published).run session conversationId refOf part)) ↔
    MarksInOrder db.tables session conversation published
      ((ReadState.start db published).run session conversationId refOf actions).handled := by
  induction actions using List.reverseRecOn with
  | nil =>
    refine ⟨fun _ => .nil, fun _ part hpart => ?_⟩
    rw [prefix_nil.1 hpart]
    exact ⟨fun m hm => (by cases hm), List.Pairwise.nil⟩
  | append_singleton actions action ih =>
    have hstep : (ReadState.start db published).run session conversationId refOf (actions ++ [action]) =
        ((ReadState.start db published).run session conversationId refOf actions).step session conversationId refOf action := by
      rw [ReadState.run, foldl_append]
      rfl
    have hparts : (∀ part, part <+: actions ++ [action] → ReadsForward db session conversationId conversation
          ((ReadState.start db published).run session conversationId refOf part)) ↔
        (∀ part, part <+: actions → ReadsForward db session conversationId conversation
          ((ReadState.start db published).run session conversationId refOf part)) ∧
        ReadsForward db session conversationId conversation
          ((ReadState.start db published).run session conversationId refOf (actions ++ [action])) := by
      constructor
      · intro h
        exact ⟨fun part hpart => h part (hpart.trans (prefix_append _ _)), h _ (prefix_refl _)⟩
      · rintro ⟨h, hlast⟩ part hpart
        rcases prefix_concat_iff.1 hpart with rfl | hpart
        · exact hlast
        · exact h part hpart
    have htracks := tracks_run hc published refOf actions
    rw [hparts, hstep]
    rcases ReadState.step_cases session conversationId refOf
      ((ReadState.start db published).run session conversationId refOf actions) action with
      hsame | ⟨s', mark, hsame, heq⟩
    · rw [readsForward_congr hsame, hsame.handled, ← ih]
      exact ⟨fun h => h.1, fun h => ⟨h, h _ (prefix_refl _)⟩⟩
    · have htracks' := htracks.congr hsame
      rw [heq, htracks'.handled_eq, marksInOrder_snoc, hsame.handled, ← ih]
      refine and_congr_right (fun h => ?_)
      have hf := (readsForward_congr hsame).2 (h _ (prefix_refl _))
      rw [← hsame.handled]
      exact ⟨Follows.of_readsForward hc htracks', hf.handle hc htracks'⟩

end Run

/-! Two messages, marked by two calls of which the later one is acknowledged first. -/

def unreadRow (id : Nat) (timestamp : Int) : IMMessageRow :=
  { id := id, platformSessionId := "s", conversationId := 1, primaryPlatformMessageId := "m", senderUserId := 1, text := "",
    content := .null, timestamp := timestamp, outgoing := false, deleted := false, platformGroupId := none, metadata := [],
    searchText := "", searchKinds := none }

def unreadTables : MessageTables :=
  { MessageTables.empty with
    messages := (Table.empty.insert (fun id => unreadRow id 1) (fun _ => rfl)).insert (fun id => unreadRow id 2) (fun _ => rfl)
    aliases := (Table.empty.insert (fun id => ⟨id, "s", 1, "first", 1, 0⟩) (fun _ => rfl)).insert
      (fun id => ⟨id, "s", 1, "second", 2, 0⟩) (fun _ => rfl)
    parts := (Table.empty.insert (fun id => ⟨id, "s", 1, 1, none, "", 11, none, none, none, none, 0⟩) (fun _ => rfl)).insert
      (fun id => ⟨id, "s", 1, 2, none, "", 12, none, none, none, none, 0⟩) (fun _ => rfl) }

def unreadConversation : IMConversationRow := ⟨1, "s", "c", .group, none, 2, none⟩

def unreadDatabase : Database :=
  { Database.empty with
    conversations := Table.empty.insert (fun id => { unreadConversation with id := id }) (fun _ => rfl)
    tables := unreadTables }

def unreadRefOf (tlMessageId : Int) : Option String :=
  if tlMessageId = 11 then some "first" else if tlMessageId = 12 then some "second" else none

/-- **The older mark is handled last**: both messages were read, and one is stored and announced as unread again. -/
theorem readsForward_reordered : ¬∀ part, part <+: [.readHistory 11, .readHistory 12, .acknowledge 1, .acknowledge 0,
      .handle .reached, .handle .reached] →
    ReadsForward unreadDatabase ⟨"s", "qq", "self"⟩ "c" unreadConversation
      ((ReadState.start unreadDatabase []).run ⟨"s", "qq", "self"⟩ "c" unreadRefOf part) := by
  intro h
  have hupdates := (h _ (prefix_refl _)).updates
  have heq : ((ReadState.start unreadDatabase []).run ⟨"s", "qq", "self"⟩ "c" unreadRefOf
      [.readHistory 11, .readHistory 12, .acknowledge 1, .acknowledge 0, .handle .reached, .handle .reached]).updates =
        [⟨12, 0⟩, ⟨11, 1⟩] := by rfl
  rw [heq] at hupdates
  simp at hupdates

theorem readsForward_ordered : (∀ part, part <+: [.readHistory 11, .readHistory 12, .acknowledge 0, .acknowledge 0,
      .handle .reached, .handle .reached] →
    ReadsForward unreadDatabase ⟨"s", "qq", "self"⟩ "c" unreadConversation
      ((ReadState.start unreadDatabase []).run ⟨"s", "qq", "self"⟩ "c" unreadRefOf part)) ↔
    MarksInOrder unreadTables ⟨"s", "qq", "self"⟩ unreadConversation []
      ((ReadState.start unreadDatabase []).run ⟨"s", "qq", "self"⟩ "c" unreadRefOf
        [.readHistory 11, .readHistory 12, .acknowledge 0, .acknowledge 0, .handle .reached, .handle .reached]).handled :=
  readsForward_run_iff rfl [] unreadRefOf _

end Crossgram
