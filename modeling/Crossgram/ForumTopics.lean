import Crossgram.Lib.Runs
import Crossgram.MessageRewrites
/-!
# ForumTopics — the id of a forum topic (packages/bridge/src/message-store.ts, dialogs.ts, update-manager.ts)

A sub-channel is shown as a forum topic under the id of its oldest live message.  The id is read from the store again
whenever it is needed, so it stays the topic's id as long as the message it was taken from stays the oldest
(`topic_id_stays`), and moves with a backfill or a deletion; the map from ids to sub-channels has one entry for an id that
two sub-channels share (`topic_id_moves`).
-/
namespace Crossgram

open List

/-! ## The oldest message -/

/-- `parts.reduce` starts from nothing and keeps the smallest id. -/
def MessageStore.getOldestTlMessageId (db : Database) (platformSessionId platformConversationId : String) : Option Int :=
  match db.conversations.first (isConversation platformSessionId platformConversationId) with
  | none              => none
  | some conversation =>
    let live := db.tables.messages.get (fun row => row.conversationId = conversation.id ∧ row.deleted = false)
    match (Windows.window (fun a b => a.timestamp ≤ b.timestamp) 1 live).head? with
    | none        => none
    | some oldest =>
      let messages := live.filter (fun row => row.timestamp = oldest.timestamp)
      let parts := db.tables.parts.get (fun part => part.platformSessionId = platformSessionId ∧
        part.messageId ∈ messages.map (fun row => row.id) ∧ part.ordinal = 0)
      (parts.map (fun part => part.tlMessageId)).min?

def FirstPart (t : MessageTables) (platformSessionId : String) (messageId : Nat) (tlMessageId : Int) : Prop :=
  ∃ part ∈ t.parts.rows, part.platformSessionId = platformSessionId ∧ part.messageId = messageId ∧ part.ordinal = 0 ∧
    part.tlMessageId = tlMessageId

/-- A live message that no other live one of its conversation stands before: not in an earlier second, and not in the
same second with a smaller first id. -/
structure Seed (t : MessageTables) (platformSessionId : String) (seed : IMMessageRow) (topicId : Int) : Prop where
  stored : seed ∈ t.messages.rows
  live : seed.deleted = false
  first : FirstPart t platformSessionId seed.id topicId
  earliest : ∀ m ∈ t.messages.rows, m.conversationId = seed.conversationId → m.deleted = false →
    seed.timestamp ≤ m.timestamp ∧
      (m.timestamp = seed.timestamp → ∀ n, FirstPart t platformSessionId m.id n → topicId ≤ n)

structure TopicMessage (db : Database) (platformSessionId childId : String) (topicId : Int) (seed : IMMessageRow) :
    Prop where
  conversation : ∃ row, db.conversations.first (isConversation platformSessionId childId) = some row ∧
    seed.conversationId = row.id
  seed : Seed db.tables platformSessionId seed topicId

theorem oldest_of_live {live : List IMMessageRow} {oldest : IMMessageRow}
    (h : (Windows.window (fun a b => a.timestamp ≤ b.timestamp) 1 live).head? = some oldest) :
    oldest ∈ live ∧ ∀ m ∈ live, oldest.timestamp ≤ m.timestamp := by
  have hin : oldest ∈ Windows.window (fun a b => a.timestamp ≤ b.timestamp) 1 live := mem_of_head? h
  refine ⟨Windows.mem_of_mem_window hin, fun m hm => ?_⟩
  have : Std.Total (fun a b : IMMessageRow => a.timestamp ≤ b.timestamp) := ⟨fun a b => Int.le_total _ _⟩
  have : IsTrans IMMessageRow (fun a b => a.timestamp ≤ b.timestamp) := ⟨fun _ _ _ => Int.le_trans⟩
  by_cases hmw : m ∈ Windows.window (fun a b => a.timestamp ≤ b.timestamp) 1 live
  · have hlen := Windows.length_window_le (r := fun a b : IMMessageRow => a.timestamp ≤ b.timestamp) 1 live
    obtain ⟨x, hx⟩ := head?_eq_some_iff.1 h
    rw [hx] at hmw hlen
    have hnil : x = [] := eq_nil_of_length_eq_zero (by rw [length_cons] at hlen; omega)
    rw [hnil, mem_singleton] at hmw
    exact hmw ▸ Int.le_refl _
  · exact (Windows.window_left_out hm hmw).2 oldest hin

variable {topicId : Int}

/-- **The id read from the store is the first part's of the oldest live message.** -/
theorem getOldestTlMessageId_eq_some {db : Database} {platformSessionId childId : String} :
    MessageStore.getOldestTlMessageId db platformSessionId childId = some topicId ↔
      ∃ seed, TopicMessage db platformSessionId childId topicId seed := by
  unfold MessageStore.getOldestTlMessageId
  cases hrow : db.conversations.first (isConversation platformSessionId childId) with
  | none =>
    simp only [reduceCtorEq, false_iff, not_exists]
    rintro seed ⟨⟨row, hrow', -⟩, -⟩
    rw [hrow] at hrow'
    cases hrow'
  | some row =>
    simp only
    have hlive : ∀ m, m ∈ db.tables.messages.get (fun m => m.conversationId = row.id ∧ m.deleted = false) ↔
        m ∈ db.tables.messages.rows ∧ m.conversationId = row.id ∧ m.deleted = false := fun m => by simp [Table.get]
    generalize db.tables.messages.get (fun m => m.conversationId = row.id ∧ m.deleted = false) = live at hlive ⊢
    cases hhead : (Windows.window (fun a b => a.timestamp ≤ b.timestamp) 1 live).head? with
    | none =>
      have hnil : live = [] := (Windows.window_eq_nil Nat.one_pos).1 (head?_eq_none_iff.1 hhead)
      simp only [reduceCtorEq, false_iff, not_exists]
      rintro seed ⟨⟨row', hrow', hconv⟩, hseed⟩
      cases hrow.symm.trans hrow'
      have := (hlive seed).2 ⟨hseed.stored, hconv, hseed.live⟩
      rw [hnil] at this
      cases this
    | some oldest =>
      obtain ⟨hin, hleast⟩ := oldest_of_live hhead
      have hparts : ∀ n, n ∈ (db.tables.parts.get (fun part => part.platformSessionId = platformSessionId ∧
          part.messageId ∈ (live.filter (fun m => m.timestamp = oldest.timestamp)).map (fun m => m.id) ∧
            part.ordinal = 0)).map (fun part => part.tlMessageId) ↔
          ∃ m ∈ live, m.timestamp = oldest.timestamp ∧ FirstPart db.tables platformSessionId m.id n := fun n => by
        simp only [Table.get, mem_map, mem_filter, decide_eq_true_eq, FirstPart]
        constructor
        · rintro ⟨part, ⟨hpart, hs, ⟨m, ⟨hm, ht⟩, hid⟩, ho⟩, hn⟩
          exact ⟨m, hm, ht, part, hpart, hs, hid.symm, ho, hn⟩
        · rintro ⟨m, hm, ht, part, hpart, hs, hid, ho, hn⟩
          exact ⟨part, ⟨hpart, hs, ⟨m, ⟨hm, ht⟩, hid.symm⟩, ho⟩, hn⟩
      simp only
      rw [min?_eq_some_iff]
      simp only [hparts]
      constructor
      · rintro ⟨⟨seed, hseed, ht, hfirst⟩, hmin⟩
        obtain ⟨hstored, hconv, hdel⟩ := (hlive seed).1 hseed
        refine ⟨seed, ⟨row, hrow, hconv⟩, hstored, hdel, hfirst, fun m hm hmc hmd => ?_⟩
        have hml := (hlive m).2 ⟨hm, hmc.trans hconv, hmd⟩
        exact ⟨ht ▸ hleast m hml, fun htm n hn => hmin n ⟨m, hml, htm.trans ht, hn⟩⟩
      · rintro ⟨seed, ⟨row', hrow', hconv⟩, hseed⟩
        cases hrow.symm.trans hrow'
        have hsl := (hlive seed).2 ⟨hseed.stored, hconv, hseed.live⟩
        obtain ⟨hostored, hoconv, hodel⟩ := (hlive oldest).1 hin
        have ht : seed.timestamp = oldest.timestamp :=
          Int.le_antisymm (hseed.earliest oldest hostored (hoconv.trans hconv.symm) hodel).1 (hleast seed hsl)
        refine ⟨⟨seed, hsl, ht, hseed.first⟩, fun n hn => ?_⟩
        obtain ⟨m, hm, htm, hn⟩ := hn
        obtain ⟨hmstored, hmconv, hmdel⟩ := (hlive m).1 hm
        exact (hseed.earliest m hmstored (hmconv.trans hconv.symm) hmdel).2 (htm.trans ht.symm) n hn

/-! ## A write that leaves the oldest message oldest -/

structure Leaves (seed : IMMessageRow) (topicId : Int) (r : IngestResult) : Prop where
  same : r.message.id = seed.id → r.message.timestamp = seed.timestamp ∧ topicId ∉ r.removedTlMessageIds
  other : r.message.id ≠ seed.id → r.message.conversationId = seed.conversationId → r.message.deleted = false →
    seed.timestamp < r.message.timestamp ∨ (r.message.timestamp = seed.timestamp ∧
      ∀ part ∈ r.projection, part.ordinal = 0 → topicId ≤ part.tlMessageId)

def StoreOperation.deletes (db : Database) : StoreOperation → List Nat
  | .deleteMessages session conversation ids =>
    let (db, row) := upsertConversation db session conversation none
    aliasedMessages db.tables session.platformSessionId row.id ids
  | _                                        => []

structure Spares (reader : MessageReader) (db : Database) (op : StoreOperation) (seed : IMMessageRow) (topicId : Int) :
    Prop where
  undeleted : seed.id ∉ op.deletes db
  left : ∀ db' results, MessageStore.apply reader db op = .ok (db', results) → ∀ r ∈ results, Leaves seed topicId r

variable {s : String} {t : MessageTables}

theorem firstPart_unique (hplaced : Placed (placings t.parts)) {messageId : Nat}
    {n n' : Int} (h : FirstPart t s messageId n) (h' : FirstPart t s messageId n') : n = n' := by
  obtain ⟨part, hpart, -, hm, ho, rfl⟩ := h
  obtain ⟨part', hpart', -, hm', ho', rfl⟩ := h'
  have hnodup : (ordinalsOf (placings t.parts) messageId).Nodup :=
    (hplaced.ordinals messageId).nodup_iff.2 nodup_range
  rw [ordinalsOf_placings] at hnodup
  have hin : ∀ q ∈ t.parts.rows, q.messageId = messageId →
      q ∈ t.parts.rows.filter (fun part => part.messageId = messageId) := fun q hq hqm =>
    mem_filter.2 ⟨hq, by simpa using hqm⟩
  rw [inj_on_of_nodup_map hnodup (hin part hpart hm) (hin part' hpart' hm') (ho.trans ho'.symm)]

theorem FirstPart.of_owned {messageId : Nat} {n : Int} {part' : TlMessagePartRow}
    (hs : part'.platformSessionId = s) (hm : part'.messageId = messageId) (ho : part'.ordinal = 0)
    (hn : part'.tlMessageId = n) (h : ∃ part ∈ t.parts.rows, part'.owned = part.owned) : FirstPart t s messageId n := by
  obtain ⟨part, hpart, heq⟩ := h
  exact ⟨part, hpart, (congrArg Prod.snd heq).symm.trans hs, (congrArg (fun o => o.1.messageId) heq).symm.trans hm,
    (congrArg (fun o => o.1.ordinal) heq).symm.trans ho, (congrArg (fun o => o.1.tlMessageId) heq).symm.trans hn⟩

def SameSeed (seed seed' : IMMessageRow) : Prop :=
  seed'.id = seed.id ∧ seed'.conversationId = seed.conversationId ∧ seed'.timestamp = seed.timestamp

variable {seed : IMMessageRow}

/-- **One ingestion.** -/
theorem Seed.rewritten {t t' : MessageTables} {r : IngestResult}
    (h : Seed t s seed topicId) (hplaced' : Placed (placings t'.parts)) (hr : Rewrites t r t')
    (hleaves : Leaves seed topicId r) : ∃ seed', SameSeed seed seed' ∧ Seed t' s seed' topicId := by
  obtain ⟨seed', hstored, hid, hconv, hdel⟩ := hr.stays seed h.stored
  have ht : seed'.timestamp = seed.timestamp := by
    rcases hr.rows seed' hstored with ⟨⟨m, hm, heq⟩, -⟩ | ⟨heq, -⟩
    · have hm : m = seed := Table.eq_of_id hm h.stored ((congrArg Standing.id heq).symm.trans hid)
      exact hm ▸ congrArg Standing.timestamp heq
    · have hrid : r.message.id = seed.id := (congrArg Standing.id heq).symm.trans hid
      exact (congrArg Standing.timestamp heq).trans (hleaves.same hrid).1
  have hfirst : FirstPart t' s seed'.id topicId := by
    obtain ⟨part, hpart, hs, hm, ho, hn⟩ := h.first
    rcases hr.kept part hpart with ⟨part', hpart', heq⟩ | ⟨hrm, hgone⟩
    · exact FirstPart.of_owned hs (hm.trans hid.symm) ho hn ⟨part', hpart', heq.symm⟩
    · exact absurd (hn ▸ hgone) (hleaves.same (hrm.symm.trans hm)).2
  refine ⟨seed', ⟨hid, hconv, ht⟩, hstored, hdel.trans h.live, hfirst, fun m' hm' hmc hmd => ?_⟩
  by_cases hseed : m'.id = seed'.id
  · have heq : m' = seed' := Table.eq_of_id hm' hstored hseed
    subst heq
    exact ⟨Int.le_refl _, fun _ n hn => Int.le_of_eq (firstPart_unique hplaced' hfirst hn)⟩
  · rw [ht]
    rcases hr.rows m' hm' with ⟨⟨m, hm, heq⟩, hparts⟩ | ⟨heq, hparts⟩
    · -- a message that stands where it stood, with no part it did not have
      obtain ⟨hle, htie⟩ := h.earliest m hm
        ((congrArg Standing.conversationId heq).symm.trans (hmc.trans hconv)) ((congrArg Standing.deleted heq).symm.trans hmd)
      have hmt : m'.timestamp = m.timestamp := congrArg Standing.timestamp heq
      refine ⟨hmt ▸ hle, fun htm n hn => ?_⟩
      obtain ⟨part', hpart', hs, hpm, ho, hn⟩ := hn
      exact htie (hmt.symm.trans htm) n
        (FirstPart.of_owned hs (hpm.trans (congrArg Standing.id heq)) ho hn (hparts part' hpart' hpm))
    · -- the message the ingestion answered
      have hrid : r.message.id ≠ seed.id := fun hc => hseed ((congrArg Standing.id heq).trans (hc.trans hid.symm))
      have hmt : m'.timestamp = r.message.timestamp := congrArg Standing.timestamp heq
      rcases hleaves.other hrid ((congrArg Standing.conversationId heq).symm.trans (hmc.trans hconv))
        ((congrArg Standing.deleted heq).symm.trans hmd) with hlt | ⟨heqt, hproj⟩
      · exact ⟨by omega, fun htm => by omega⟩
      · refine ⟨by omega, fun _ n hn => ?_⟩
        obtain ⟨part', hpart', -, hpm, ho, hn⟩ := hn
        exact hn ▸ hproj part' (hparts part' hpart' hpm) ho

theorem Leaves.congr {seed seed' : IMMessageRow} {r : IngestResult} (h : Leaves seed topicId r)
    (hsame : SameSeed seed seed') : Leaves seed' topicId r := by
  obtain ⟨hid, hconv, ht⟩ := hsame
  refine ⟨fun hr => ?_, fun hr hc hd => ?_⟩
  · rw [ht]
    exact h.same (hr.trans hid)
  · rw [ht]
    exact h.other (fun hc' => hr (hc'.trans hid.symm)) (hc.trans hconv) hd

theorem SameSeed.trans {a b c : IMMessageRow} (h : SameSeed a b) (h' : SameSeed b c) : SameSeed a c :=
  ⟨h'.1.trans h.1, h'.2.1.trans h.2.1, h'.2.2.trans h.2.2⟩

/-- **The ingestions of one operation.** -/
theorem seed_rule (s : String) (topicId : Int) : StoreRule (fun t results t' => Placed (placings t.parts) →
    Placed (placings t'.parts) ∧ ∀ seed, Seed t s seed topicId → (∀ r ∈ results, Leaves seed topicId r) →
      ∃ seed', SameSeed seed seed' ∧ Seed t' s seed' topicId) where
  refl := fun hplaced => ⟨hplaced, fun seed h _ => ⟨seed, ⟨rfl, rfl, rfl⟩, h⟩⟩
  trans := fun h h' hplaced => by
    obtain ⟨hplaced₁, hkeep₁⟩ := h hplaced
    obtain ⟨hplaced₂, hkeep₂⟩ := h' hplaced₁
    refine ⟨hplaced₂, fun seed hseed hleaves => ?_⟩
    obtain ⟨seed₁, hsame₁, hseed₁⟩ := hkeep₁ seed hseed (fun r hr => hleaves r (mem_append_left _ hr))
    obtain ⟨seed₂, hsame₂, hseed₂⟩ := hkeep₂ seed₁ hseed₁
      (fun r hr => (hleaves r (mem_append_right _ hr)).congr hsame₁)
    exact ⟨seed₂, hsame₁.trans hsame₂, hseed₂⟩
  settled := fun h hplaced => by
    have hplaced' := (Ingesting.settle_rule passes_rule h hplaced).placed hplaced
    refine ⟨hplaced', fun seed hseed hleaves => ?_⟩
    exact hseed.rewritten hplaced' (Ingesting.settle_rewrites hplaced h) (hleaves _ (mem_singleton_self _))

theorem Seed.undeleted
    (h : Seed t s seed topicId) {ids : List Nat} (hid : seed.id ∉ ids) :
    let messages := t.messages.set (fun message => message.id ∈ ids) (fun message => { message with deleted := true })
      (fun _ => rfl)
    Seed { t with messages := messages } s seed topicId where
  stored := mem_map.2 ⟨seed, h.stored, by simp [hid]⟩
  live := h.live
  first := h.first
  earliest := fun m' hm' hconv hdel => by
    obtain ⟨m, hm, heq⟩ := mem_map.1 hm'
    by_cases hmem : decide (m.id ∈ ids) = true
    · simp only [hmem, if_true] at heq
      rw [← heq] at hdel
      cases hdel
    · simp only [hmem, if_false, Bool.false_eq_true] at heq
      subst heq
      exact h.earliest m hm hconv hdel

/-- **A write that spares the topic's message leaves the topic its id.** -/
theorem topicMessage_after {reader : MessageReader} {db db' : Database} {op : StoreOperation}
    {results : List IngestResult} {platformSessionId childId : String}
    (hplaced : Placed (placings db.tables.parts)) (h : TopicMessage db platformSessionId childId topicId seed)
    (hspares : Spares reader db op seed topicId) (happ : MessageStore.apply reader db op = .ok (db', results)) :
    ∃ seed', TopicMessage db' platformSessionId childId topicId seed' := by
  obtain ⟨⟨row, hrow, hconv⟩, hseed⟩ := h
  obtain ⟨row', hrow', hid⟩ := apply_keeps happ platformSessionId childId row hrow
  by_cases hop : ∀ session conversation ids, op ≠ .deleteMessages session conversation ids
  · obtain ⟨seed', hsame, hseed'⟩ := (apply_store_rule (seed_rule platformSessionId topicId) hop happ hplaced).2 seed
      hseed (hspares.left db' results happ)
    exact ⟨seed', ⟨row', hrow', (hsame.2.1.trans hconv).trans hid.symm⟩, hseed'⟩
  · push Not at hop
    obtain ⟨session, conversation, ids, rfl⟩ := hop
    cases happ
    have htables := upsertConversation_tables db session conversation none
    refine ⟨seed, ⟨row', hrow', hconv.trans hid.symm⟩, ?_⟩
    exact Seed.undeleted (htables.symm ▸ hseed) hspares.undeleted

theorem placed_step {db : Database} (op : MessageReader × StoreOperation) (hplaced : Placed (placings db.tables.parts)) :
    Placed (placings (MessageStore.step db op).1.tables.parts) := by
  unfold MessageStore.step
  cases happ : MessageStore.apply op.1 db op.2 with
  | error e => exact hplaced
  | ok out => exact (apply_rule passes_rule happ hplaced).placed hplaced

/-! ## Handing out ids -/

/-- A topic id as it was handed out; `none` for a live update sent without one. -/
structure TopicAnswer where
  childId : String
  topicId : Option Int
  materialized : Bool
deriving DecidableEq

/-- A session's store, the two maps of its `DialogRpc`, and the answers so far, the latest first. -/
structure Topics where
  db : Database
  topicToConversation : List (Int × String)
  conversationToTopic : List (String × Int)
  answers : List TopicAnswer

def Topics.start : Topics :=
  { db := Database.empty, topicToConversation := [], conversationToTopic := [], answers := [] }

/-- What happens in a session.  `history` holds the ids of the messages `_materializeTopic` has read or loaded. -/
inductive TopicEvent
  | write (reader : MessageReader) (op : StoreOperation)
  | materialize (childId : String) (history : List Int)
  | publish (childId : String)
  | replyHeader (childId : String) (messageId : Int)

namespace Topics

/-- `_materializeTopic`: a topic with no message throws (FORUM_TOPIC_EMPTY). -/
def materializeTopic (platformSessionId childId : String) (history : List Int) (s : Topics) : Topics :=
  match history.getLast? with
  | none          => s
  | some oldestId =>
    let topicId := (MessageStore.getOldestTlMessageId s.db platformSessionId childId).getD oldestId
    { s with
      topicToConversation := Maps.set s.topicToConversation topicId childId
      conversationToTopic := Maps.set s.conversationToTopic childId topicId
      answers := ⟨childId, some topicId, true⟩ :: s.answers }

/-- `_topicReplyHeader`: a message shows no header when its id is the topic's. -/
def topicReplyHeader (childId : String) (messageId : Int) (s : Topics) : Topics :=
  match Maps.get s.conversationToTopic childId with
  | none         => s
  | some topicId => if topicId = 0 ∨ topicId = messageId then s
    else { s with answers := ⟨childId, some topicId, false⟩ :: s.answers }

def step (platformSessionId : String) (s : Topics) : TopicEvent → Option Topics
  | .write reader op                 => some { s with db := (MessageStore.step s.db (reader, op)).1 }
  | .materialize childId history     => some (s.materializeTopic platformSessionId childId history)
  | .publish childId                 => some { s with
      answers := ⟨childId, MessageStore.getOldestTlMessageId s.db platformSessionId childId, false⟩ :: s.answers }
  | .replyHeader childId messageId   => some (s.topicReplyHeader childId messageId)

/-- Once an id has been handed out for a sub-channel, every later answer for it has that id. -/
def Steady (s : Topics) : Prop :=
  s.answers.Pairwise (fun later earlier => later.childId = earlier.childId →
    ∀ topicId, earlier.topicId = some topicId → later.topicId = some topicId)

def Resolves (s : Topics) : Prop :=
  ∀ a ∈ s.answers, a.materialized = true → ∃ topicId, a.topicId = some topicId ∧
    Maps.get s.topicToConversation topicId = some a.childId ∧ Maps.get s.conversationToTopic a.childId = some topicId

/-- A write spares the messages the ids in use were taken from; a topic is materialized from a message whose id no other
sub-channel's topic has. -/
def Undisturbed (platformSessionId : String) (s : Topics) : TopicEvent → Prop
  | .write reader op             => ∀ a ∈ s.answers, ∀ topicId, a.topicId = some topicId → ∀ seed,
      TopicMessage s.db platformSessionId a.childId topicId seed → Spares reader s.db op seed topicId
  | .materialize childId history => history ≠ [] → ∃ topicId seed,
      TopicMessage s.db platformSessionId childId topicId seed ∧
        ∀ other, Maps.get s.topicToConversation topicId = some other → other = childId
  | .publish _                   => True
  | .replyHeader _ _             => True

structure Inv (platformSessionId : String) (s : Topics) : Prop where
  placed : Placed (placings s.db.tables.parts)
  seeds : ∀ a ∈ s.answers, ∀ topicId, a.topicId = some topicId →
    ∃ seed, TopicMessage s.db platformSessionId a.childId topicId seed
  mapped : ∀ childId topicId, Maps.get s.conversationToTopic childId = some topicId →
    ∃ a ∈ s.answers, a.childId = childId ∧ a.topicId = some topicId
  steady : s.Steady
  resolves : s.Resolves

variable {platformSessionId : String} {s : Topics}

theorem inv_start : Inv platformSessionId start where
  placed := Placed.nil
  seeds := fun _ h => (by cases h)
  mapped := fun _ _ h => (by cases h)
  steady := List.Pairwise.nil
  resolves := fun _ h => (by cases h)

theorem Inv.answered (h : Inv platformSessionId s) (childId : String) (materialized : Bool) {answer : Option Int}
    (hanswer : answer = MessageStore.getOldestTlMessageId s.db platformSessionId childId) :
    (∀ a ∈ (⟨childId, answer, materialized⟩ : TopicAnswer) :: s.answers, ∀ topicId, a.topicId = some topicId →
      ∃ seed, TopicMessage s.db platformSessionId a.childId topicId seed) ∧
      Steady { s with answers := ⟨childId, answer, materialized⟩ :: s.answers } := by
  refine ⟨fun a ha topicId htopic => ?_, List.Pairwise.cons (fun earlier he hsame topicId htopic => ?_) h.steady⟩
  · rcases mem_cons.1 ha with rfl | ha
    · exact getOldestTlMessageId_eq_some.1 (hanswer.symm.trans htopic)
    · exact h.seeds a ha topicId htopic
  · have hsame : childId = earlier.childId := hsame
    subst hsame
    show answer = some topicId
    rw [hanswer]
    exact getOldestTlMessageId_eq_some.2 (h.seeds earlier he topicId htopic)

theorem Inv.written (h : Inv platformSessionId s) {reader : MessageReader} {op : StoreOperation}
    (hok : Undisturbed platformSessionId s (.write reader op)) :
    Inv platformSessionId { s with db := (MessageStore.step s.db (reader, op)).1 } := by
  have hplaced := placed_step (reader, op) h.placed
  have hkeep : ∀ childId topicId seed, TopicMessage s.db platformSessionId childId topicId seed →
      Spares reader s.db op seed topicId → ∃ seed', TopicMessage (MessageStore.step s.db (reader, op)).1
        platformSessionId childId topicId seed' := fun childId topicId seed hseed hspares => by
    unfold MessageStore.step
    cases happ : MessageStore.apply reader s.db op with
    | error e => exact ⟨seed, hseed⟩
    | ok out => exact topicMessage_after h.placed hseed hspares happ
  refine ⟨hplaced, fun a ha topicId htopic => ?_, h.mapped, h.steady, h.resolves⟩
  obtain ⟨seed, hseed⟩ := h.seeds a ha topicId htopic
  exact hkeep _ _ _ hseed (hok a ha topicId htopic seed hseed)

theorem Inv.published (h : Inv platformSessionId s) (childId : String) : Inv platformSessionId { s with
    answers := ⟨childId, MessageStore.getOldestTlMessageId s.db platformSessionId childId, false⟩ :: s.answers } := by
  obtain ⟨hseeds, hsteady⟩ := h.answered childId false rfl
  refine ⟨h.placed, hseeds, fun c topicId hget => ?_, hsteady, fun a ha hm => ?_⟩
  · obtain ⟨a, ha, hc, ht⟩ := h.mapped c topicId hget
    exact ⟨a, mem_cons_of_mem _ ha, hc, ht⟩
  · rcases mem_cons.1 ha with rfl | ha
    · cases hm
    · exact h.resolves a ha hm

theorem Inv.replied (h : Inv platformSessionId s) (childId : String) (messageId : Int) :
    Inv platformSessionId (s.topicReplyHeader childId messageId) := by
  unfold topicReplyHeader
  cases hget : Maps.get s.conversationToTopic childId with
  | none => exact h
  | some topicId =>
    simp only
    split
    · exact h
    · obtain ⟨earlier, he, hc, ht⟩ := h.mapped childId topicId hget
      have hold : MessageStore.getOldestTlMessageId s.db platformSessionId childId = some topicId :=
        getOldestTlMessageId_eq_some.2 (hc ▸ h.seeds earlier he topicId ht)
      have hpub := h.published childId
      rw [hold] at hpub
      exact hpub

theorem Inv.materialized (h : Inv platformSessionId s) {childId : String} {history : List Int}
    (hok : Undisturbed platformSessionId s (.materialize childId history)) :
    Inv platformSessionId (s.materializeTopic platformSessionId childId history) := by
  unfold materializeTopic
  cases hlast : history.getLast? with
  | none => exact h
  | some oldestId =>
    obtain ⟨topicId, seed, hseed, hfree⟩ := hok (fun hc => by rw [hc] at hlast; cases hlast)
    have hold : MessageStore.getOldestTlMessageId s.db platformSessionId childId = some topicId :=
      getOldestTlMessageId_eq_some.2 ⟨seed, hseed⟩
    obtain ⟨hseeds, hsteady⟩ := h.answered childId true hold.symm
    simp only [hold, Option.getD_some]
    refine ⟨h.placed, hseeds, fun c n hget => ?_, hsteady, fun a ha hm => ?_⟩
    · by_cases hc : c = childId
      · subst hc
        rw [Maps.get_set, if_pos rfl] at hget
        exact ⟨_, mem_cons_self, rfl, hget⟩
      · rw [Maps.get_set, if_neg hc] at hget
        obtain ⟨a, ha, hac, ht⟩ := h.mapped c n hget
        exact ⟨a, mem_cons_of_mem _ ha, hac, ht⟩
    · rcases mem_cons.1 ha with rfl | ha
      · exact ⟨topicId, rfl, by simp, by simp⟩
      · obtain ⟨n, hn, hto, hfrom⟩ := h.resolves a ha hm
        by_cases hc : a.childId = childId
        · have hsame : some n = some topicId := by
            rw [← hold, ← hc]
            exact (getOldestTlMessageId_eq_some.2 (h.seeds a ha n hn)).symm
          have hsame : n = topicId := Option.some.inj hsame
          exact ⟨n, hn, by simp [hsame, hc], by simp [hsame, hc]⟩
        · have hne : n ≠ topicId := fun heq => hc (hfree a.childId (heq ▸ hto))
          exact ⟨n, hn, by simp [hne, hto], by simp [hc, hfrom]⟩

/-- **The topics of a run whose writes spare them.** -/
theorem inv_reachable (h : Runs.Reachable (step platformSessionId) (Undisturbed platformSessionId) start s) :
    Inv platformSessionId s := by
  refine h.invariant inv_start (fun s ev s' _ hinv hok hs => ?_)
  cases ev with
  | write reader op =>
    cases hs
    exact hinv.written hok
  | materialize childId history =>
    cases hs
    exact hinv.materialized hok
  | publish childId =>
    cases hs
    exact hinv.published childId
  | replyHeader childId messageId =>
    cases hs
    exact hinv.replied childId messageId

/-- **A forum topic keeps its id while the message it was taken from stays the oldest.**  In a run whose writes neither
delete nor move that message nor put another before it, and in which no two sub-channels are materialized under one id,
every answer for a sub-channel has the id handed out first, and the id leads back to it. -/
theorem topic_id_stays (h : Runs.Reachable (step platformSessionId) (Undisturbed platformSessionId) start s) :
    s.Steady ∧ s.Resolves :=
  ⟨(inv_reachable h).steady, (inv_reachable h).resolves⟩

/-! ## Runs of a sub-channel -/

def topicChannel (childId parentId : String) : IMConversation := { id := childId, kind := .channel, parentId := some parentId }

def topicMessage (childId id : String) (timestamp : Int) : IMMessage :=
  { id := id, conversationId := childId, senderId := "member", content := { parts := [.text id []], rest := .null },
    timestamp := timestamp }

def wrote (childId id : String) (timestamp : Int) (allocation : Allocation) : TopicEvent :=
  .write plainReader (.ingest plainSession (topicChannel childId "forum") (topicMessage childId id timestamp) allocation)

def growingTopic : List TopicEvent :=
  [wrote "child" "first" 1700000200 .live, .materialize "child" [1], wrote "child" "second" 1700000300 .live,
    .publish "child", .materialize "child" [1]]

def storesLater (reader : MessageReader) (db : Database) (op : StoreOperation) : Bool :=
  match MessageStore.apply reader db op with
  | .error _ => true
  | .ok out  => out.2.all (fun r => db.tables.messages.rows.all (fun row =>
      r.message.id ≠ row.id ∧ row.timestamp < r.message.timestamp))

/-- A test for `Undisturbed` that looks at the stored rows only. -/
def staysInOrder (platformSessionId : String) (s : Topics) : TopicEvent → Bool
  | .write reader op             => op.deletes s.db = [] ∧ storesLater reader s.db op
  | .materialize childId history => history = [] ∨
      ((MessageStore.getOldestTlMessageId s.db platformSessionId childId).map (fun topicId =>
        (Maps.get s.topicToConversation topicId).all (fun other => other = childId))).getD false
  | .publish _                   => true
  | .replyHeader _ _             => true

theorem undisturbed_of_staysInOrder (s : Topics) (ev : TopicEvent) (h : staysInOrder platformSessionId s ev = true) :
    Undisturbed platformSessionId s ev := by
  cases ev with
  | write reader op =>
    obtain ⟨hdelete, hlater⟩ := of_decide_eq_true h
    refine fun a ha topicId htopic seed hseed => ⟨by rw [hdelete]; simp, fun db' results happ r hr => ?_⟩
    unfold storesLater at hlater
    rw [happ] at hlater
    simp only [all_eq_true, decide_eq_true_eq] at hlater
    obtain ⟨hid, hlt⟩ := hlater r hr seed hseed.seed.stored
    exact ⟨fun hc => absurd hc hid, fun _ _ _ => Or.inl hlt⟩
  | materialize childId history =>
    refine fun hne => ?_
    have h := (of_decide_eq_true h).resolve_left hne
    cases hold : MessageStore.getOldestTlMessageId s.db platformSessionId childId with
    | none =>
      rw [hold] at h
      cases h
    | some topicId =>
      obtain ⟨seed, hseed⟩ := getOldestTlMessageId_eq_some.1 hold
      refine ⟨topicId, seed, hseed, fun other hother => ?_⟩
      rw [hold, Option.map_some, Option.getD_some, hother] at h
      exact of_decide_eq_true h
  | publish childId => trivial
  | replyHeader childId messageId => trivial

theorem topic_id_of_growingTopic :
    ((Runs.run (fun s ev => if staysInOrder "session" s ev then step "session" s ev else none) start growingTopic).map
      (fun s => s.answers)) = some [⟨"child", some 1073741824, true⟩, ⟨"child", some 1073741824, false⟩,
        ⟨"child", some 1073741824, true⟩] ∧
    ∃ s, Runs.run (fun s ev => if staysInOrder "session" s ev then step "session" s ev else none) start growingTopic =
      some s ∧ s.Steady ∧ s.Resolves := by
  have hrun : ((Runs.run (fun s ev => if staysInOrder "session" s ev then step "session" s ev else none) start
      growingTopic).map (fun s => s.answers)) = some [⟨"child", some 1073741824, true⟩,
        ⟨"child", some 1073741824, false⟩, ⟨"child", some 1073741824, true⟩] := by decide +kernel
  refine ⟨hrun, ?_⟩
  obtain ⟨s, hs, -⟩ := Option.map_eq_some_iff.1 hrun
  exact ⟨s, hs, topic_id_stays (Runs.reachable_of_tested_run (undisturbed_of_staysInOrder) .init hs)⟩

def backfilledTopic : List TopicEvent :=
  [wrote "child" "new" 1700000200 .live, .materialize "child" [1], wrote "child" "old" 1700000100 .history,
    .publish "child"]

def trimmedTopic : List TopicEvent :=
  [wrote "child" "first" 1700000200 .live, wrote "child" "second" 1700000300 .live, .materialize "child" [1],
    .write plainReader (.deleteMessages plainSession (topicChannel "child" "forum") ["first"]), .publish "child"]

def twoForums : List TopicEvent :=
  [wrote "child" "first" 1700000200 .live,
    .write plainReader (.ingest plainSession (topicChannel "cousin" "elsewhere") (topicMessage "cousin" "other" 1700000300)
      .live), .materialize "child" [1], .materialize "cousin" [1]]

def answersOf (events : List TopicEvent) : Option (List (TopicAnswer × Option String)) :=
  (Runs.run (step "session") start events).map (fun s => s.answers.map (fun a =>
    (a, a.topicId.bind (Maps.get s.topicToConversation))))

theorem answersOf_run {events : List TopicEvent} {answers : List (TopicAnswer × Option String)}
    (h : answersOf events = some answers) : ∃ s, Runs.Reachable (step "session") (fun _ _ => True) start s ∧
      s.answers.map (fun a => (a, a.topicId.bind (Maps.get s.topicToConversation))) = answers := by
  obtain ⟨s, hs, hanswers⟩ := Option.map_eq_some_iff.1 h
  exact ⟨s, Runs.reachable_of_run (fun _ _ _ => trivial) .init hs, hanswers⟩

theorem not_steady {s : Topics} {later earlier : TopicAnswer} {l e : Option String}
    (h : s.answers.map (fun a => (a, a.topicId.bind (Maps.get s.topicToConversation))) = [(later, l), (earlier, e)])
    (hsame : later.childId = earlier.childId) {topicId : Int} (he : earlier.topicId = some topicId)
    (hl : later.topicId ≠ some topicId) : ¬s.Steady := by
  intro hsteady
  have hanswers : s.answers = [later, earlier] := by
    have := congrArg (List.map Prod.fst) h
    rw [map_map] at this
    exact (map_id s.answers).symm.trans this
  unfold Steady at hsteady
  rw [hanswers, pairwise_cons] at hsteady
  exact hl (hsteady.1 earlier (mem_singleton_self _) hsame topicId he)

/-- **The id moves** with a backfill and with a deletion, and of two sub-channels with one id the second takes it over. -/
theorem topic_id_moves :
    (∃ s, Runs.Reachable (step "session") (fun _ _ => True) start s ∧ ¬s.Steady ∧
      s.answers.map (fun a => a.topicId) = [some 1073740224, some 1073741824]) ∧
    (∃ s, Runs.Reachable (step "session") (fun _ _ => True) start s ∧ ¬s.Steady ∧
      s.answers.map (fun a => a.topicId) = [some 1073743424, some 1073741824]) ∧
    (∃ s, Runs.Reachable (step "session") (fun _ _ => True) start s ∧ ¬s.Resolves) := by
  have hbackfilled : answersOf backfilledTopic =
      some [(⟨"child", some 1073740224, false⟩, none), (⟨"child", some 1073741824, true⟩, some "child")] := by
    decide +kernel
  have htrimmed : answersOf trimmedTopic =
      some [(⟨"child", some 1073743424, false⟩, none), (⟨"child", some 1073741824, true⟩, some "child")] := by
    decide +kernel
  have hforums : answersOf twoForums =
      some [(⟨"cousin", some 1073741824, true⟩, some "cousin"), (⟨"child", some 1073741824, true⟩, some "cousin")] := by
    decide +kernel
  obtain ⟨s₁, hs₁, h₁⟩ := answersOf_run hbackfilled
  obtain ⟨s₂, hs₂, h₂⟩ := answersOf_run htrimmed
  obtain ⟨s₃, hs₃, h₃⟩ := answersOf_run hforums
  refine ⟨⟨s₁, hs₁, not_steady h₁ rfl rfl (by decide), ?_⟩, ⟨s₂, hs₂, not_steady h₂ rfl rfl (by decide), ?_⟩,
    s₃, hs₃, fun hresolves => ?_⟩
  · have := congrArg (List.map (fun e => e.1.topicId)) h₁
    rwa [map_map] at this
  · have := congrArg (List.map (fun e => e.1.topicId)) h₂
    rwa [map_map] at this
  · -- the first sub-channel's id leads to the second
    have hmem : ((⟨"child", some 1073741824, true⟩ : TopicAnswer), some "cousin") ∈ s₃.answers.map (fun a =>
        (a, a.topicId.bind (Maps.get s₃.topicToConversation))) := by
      rw [h₃]
      exact mem_cons_of_mem _ (mem_singleton_self _)
    obtain ⟨a, ha, heq⟩ := mem_map.1 hmem
    obtain ⟨haeq, hto⟩ := Prod.mk.inj heq
    subst haeq
    obtain ⟨topicId, htopic, hchild, -⟩ := hresolves _ ha rfl
    cases htopic
    rw [Option.bind_some, hchild] at hto
    exact absurd (Option.some.inj hto) (by decide)

end Topics

end Crossgram
