import Crossgram.MessageParts
/-!
# MessageIdentity — what a Telegram message id names

Ids of a scope are distinct at all times and a stored part keeps its id.  An id names one message as long as the part is
stored: when an ingest shows its message with fewer parts, or under another scope, the ids of the parts that go are free,
and the slot search may give one to another message (`message_id_reused`).  Nothing else frees an id
(`message_id_names_one_message`).
-/
namespace Crossgram

open List

def Removed (results : List IngestResult) (messageId : Nat) (tlMessageId : Int) : Prop :=
  ∃ r ∈ results, r.message.id = messageId ∧ tlMessageId ∈ r.removedTlMessageIds

theorem Removed.mono {results results' : List IngestResult} (hs : results ⊆ results') {messageId : Nat}
    {tlMessageId : Int} (h : Removed results messageId tlMessageId) : Removed results' messageId tlMessageId := by
  obtain ⟨r, hr, hm⟩ := h
  exact ⟨r, hs hr, hm⟩

def Assigns (r : IngestResult) (part : TlMessagePartRow) : Prop :=
  part ∈ r.projection ∧ part.tlMessageId ∈ r.addedTlMessageIds

structure Ingests (parts : Table TlMessagePartRow) (r : IngestResult) (parts' : Table TlMessagePartRow) : Prop where
  placed : Placed (placings parts')
  evolves : Evolves (Removed [r]) parts parts'
  assigned : ∀ part, Assigns r part → part.placing ∈ placings parts' ∧ part.messageId = r.message.id

inductive Passes (parts : Table TlMessagePartRow) : List IngestResult → Table TlMessagePartRow → Prop
  | start : Passes parts [] parts
  | next {parts' parts'' : Table TlMessagePartRow} {results : List IngestResult} {r : IngestResult} :
      Passes parts results parts' → Ingests parts' r parts'' → Passes parts (results ++ [r]) parts''

namespace Passes

variable {a b c : Table TlMessagePartRow} {results results' : List IngestResult}

theorem trans (h : Passes a results b) (h' : Passes b results' c) : Passes a (results ++ results') c := by
  induction h' with
  | start => rw [append_nil]; exact h
  | next _ hi ih => rw [← append_assoc]; exact ih.next hi

theorem placed (h : Passes a results b) (ha : Placed (placings a)) : Placed (placings b) := by
  cases h with
  | start => exact ha
  | next _ hi => exact hi.placed

theorem evolves (h : Passes a results b) : Evolves (Removed results) a b := by
  induction h with
  | start => exact Evolves.of_placings rfl rfl
  | next _ hi ih =>
    exact (ih.mono (fun m n hr => hr.mono (subset_append_left _ _))).trans
      (hi.evolves.mono (fun m n hr => hr.mono (subset_append_right _ _)))

theorem assigned_stays (h : Passes a results b) : ∀ {before after : List IngestResult} {r : IngestResult},
    results = before ++ r :: after → ∀ part, Assigns r part →
      part.placing ∈ placings b ∨ Removed after part.messageId part.tlMessageId := by
  induction h with
  | start => intro before after r heq; simp at heq
  | next hp hi ih =>
    rename_i rs x
    intro before after r heq part ha
    rcases eq_nil_or_concat after with rfl | ⟨after', y, rfl⟩
    · rw [append_singleton_inj] at heq
      obtain ⟨-, rfl⟩ := heq
      exact Or.inl (hi.assigned part ha).1
    · rw [concat_eq_append, ← cons_append, ← append_assoc, append_singleton_inj] at heq
      obtain ⟨rfl, rfl⟩ := heq
      rw [concat_eq_append]
      rcases ih rfl part ha with hin | hrem
      · rcases hi.evolves.kept _ hin with hin | hrem
        · exact Or.inl hin
        · exact Or.inr (Removed.mono (subset_append_right _ _) hrem)
      · exact Or.inr (hrem.mono (subset_append_left _ _))

theorem eq_of_slot {ps : List PartPlacing} (h : Placed ps) {p q : PartPlacing} (hp : p ∈ ps) (hq : q ∈ ps)
    (hs : p.scope = q.scope) (hn : p.tlMessageId = q.tlMessageId) : p = q := by
  by_contra hne
  rcases Windows.rel_or_rel_of_mem h.slots hp hq hne with h' | h'
  · exact h' hs hn
  · exact h' hs.symm hn.symm

/-- **An id is assigned to another message only after an ingestion removed it from the first.** -/
theorem removed_between (h : Passes a results b) : ∀ {before between after : List IngestResult} {r r' : IngestResult},
    results = before ++ r :: between ++ r' :: after → ∀ part part', Assigns r part → Assigns r' part' →
      part.scope = part'.scope → part.tlMessageId = part'.tlMessageId → part.messageId ≠ part'.messageId →
      Removed between part.messageId part.tlMessageId := by
  induction h with
  | start => intro before between after r r' heq; simp at heq
  | next hp hi ih =>
    intro before between after r r' heq part part' ha ha' hs hn hm
    rcases eq_nil_or_concat after with rfl | ⟨after', y, rfl⟩
    · rw [append_singleton_inj] at heq
      obtain ⟨rfl, rfl⟩ := heq
      obtain ⟨hin', hid⟩ := hi.assigned part' ha'
      rcases hp.assigned_stays rfl part ha with hin | hrem
      · rcases hi.evolves.kept _ hin with hin | ⟨x, hx, hxm, -⟩
        · exact absurd (congrArg PartPlacing.messageId (eq_of_slot hi.placed hin hin' hs hn)) hm
        · rw [mem_singleton.1 hx, ← hid] at hxm
          exact absurd hxm.symm hm
      · exact hrem
    · rw [concat_eq_append, ← cons_append, ← append_assoc, append_singleton_inj] at heq
      exact ih heq.1 part part' ha ha' hs hn hm

end Passes

theorem Projecting.ingests {p : Projecting} {t t' : MessageTables} {cache cache' : List (String × Int)}
    {projected : Projected} {r : IngestResult} (hplaced : Placed (placings t.parts))
    (h : p.ensureProjection t cache = .ok ((t', cache'), projected)) (hm : r.message.id = p.messageId)
    (hp : r.projection = projected.projection) (hr : r.removedTlMessageIds = projected.removedTlMessageIds) :
    Ingests t.parts r t'.parts := by
  obtain ⟨hplaced', hev⟩ := placed_ensureProjection hplaced h
  refine ⟨hplaced', hev.mono (fun m n hg => ?_), fun part ha => ?_⟩
  · exact ⟨r, mem_singleton_self _, hm.trans hg.1.symm, hr ▸ hg.2⟩
  · have hpart := ha.1
    rw [hp, (steps h).projection, mem_partsOf] at hpart
    exact ⟨mem_map_of_mem hpart.1, hpart.2.trans hm.symm⟩

/-- **Every operation is a row of ingestions.** -/
theorem passes_rule : ProjectionRule (fun t results t' => Placed (placings t.parts) → Passes t.parts results t'.parts) where
  unchanged := fun hp _ _ => hp ▸ Passes.start
  trans := fun h h' hplaced => (h hplaced).trans (h' ((h hplaced).placed hplaced))
  kept := fun {t r} hadd hrem hplaced => by
    refine Passes.next Passes.start ⟨hplaced, Evolves.of_placings rfl rfl, fun part ha => ?_⟩
    have := ha.2
    rw [hadd] at this
    cases this
  projected := fun h hm hp _ hr hplaced => Passes.next Passes.start (Projecting.ingests hplaced h hm hp hr)

def resultsOf (db : Database) (ops : List (MessageReader × StoreOperation)) : List IngestResult :=
  (Runs.calls MessageStore.step db ops).flatMap ingested

/-- **An id names one message until an ingest of that message frees it.**  At every time the ids of a scope are distinct
and in range; a stored part keeps its scope, id and message; and an id is a second message's only after an ingest of the
first reported it removed. -/
theorem message_id_names_one_message (db : Database) (hplaced : Placed (placings db.tables.parts))
    (earlier later : List (MessageReader × StoreOperation)) :
    let now := Runs.final MessageStore.step db earlier
    let then_ := Runs.final MessageStore.step now later
    (now.tables.parts.rows.Pairwise (fun a b => a.scope = b.scope → a.tlMessageId ≠ b.tlMessageId) ∧
      ∀ a ∈ now.tables.parts.rows, 16 ≤ a.tlMessageId ∧ a.tlMessageId ≤ 0x7fffffff) ∧
    (∀ a ∈ now.tables.parts.rows, ∀ b ∈ then_.tables.parts.rows, a.id = b.id →
      b.scope = a.scope ∧ b.tlMessageId = a.tlMessageId ∧ b.messageId = a.messageId) ∧
    (∀ a ∈ now.tables.parts.rows, ∀ b ∈ then_.tables.parts.rows, a.scope = b.scope → a.tlMessageId = b.tlMessageId →
      a.messageId ≠ b.messageId → Removed (resultsOf now later) a.messageId a.tlMessageId) ∧
    (∀ before r between r' after, resultsOf db earlier = before ++ r :: between ++ r' :: after →
      ∀ a b, Assigns r a → Assigns r' b → a.scope = b.scope → a.tlMessageId = b.tlMessageId →
        a.messageId ≠ b.messageId → Removed between a.messageId a.tlMessageId) := by
  intro now then_
  have hpass : Passes db.tables.parts (resultsOf db earlier) now.tables.parts := run_rule passes_rule earlier db hplaced
  have hplaced₁ := hpass.placed hplaced
  have hpass₂ : Passes now.tables.parts (resultsOf now later) then_.tables.parts :=
    run_rule passes_rule later now hplaced₁
  have hplaced₂ := hpass₂.placed hplaced₁
  refine ⟨⟨?_, fun a ha => hplaced₁.range _ (mem_map_of_mem ha)⟩, fun a ha b hb hid => ?_,
    fun a ha b hb hs hn hm => ?_, fun before r between r' after heq a b har hbr hs hn hm => ?_⟩
  · have hslots := hplaced₁.slots
    rw [placings, pairwise_map] at hslots
    exact hslots
  · have hb' := hpass₂.evolves.old b.placing (mem_map_of_mem hb) (by
      show b.id < _
      rw [← hid]
      exact now.tables.parts.idsFresh a ha)
    have heq : b.placing = a.placing := eq_of_placing_id hb' (mem_map_of_mem ha) hid.symm
    exact ⟨congrArg PartPlacing.scope heq, congrArg PartPlacing.tlMessageId heq, congrArg PartPlacing.messageId heq⟩
  · rcases hpass₂.evolves.kept a.placing (mem_map_of_mem ha) with hin | hrem
    · exact absurd (congrArg PartPlacing.messageId
        (Passes.eq_of_slot hplaced₂ hin (mem_map_of_mem hb) hs hn)) hm
    · exact hrem
  · exact hpass.removed_between heq a b har hbr hs hn hm

/-! ## Runs of an account with one group -/

def plainReader : MessageReader where
  messageText := fun source => "\n".intercalate (source.content.parts.filterMap (fun part => match part with
    | .text body _ => some body
    | _            => none))
  messageSearchText := fun source => "\n".intercalate (source.content.parts.filterMap (fun part => match part with
    | .text body _ => some body
    | _            => none))
  messageSearchKinds := fun source _ => if mediaOf source = [] then 0 else 1
  isArticleMessage := fun _ => false
  plan := fun _ _ _ _ plan => plan
  requestInboxMessage := fun request =>
    { id := "bridge:request:" ++ request.id, conversationId := "bridge:request-inbox", senderId := "bridge:request-inbox",
      content := { parts := [.text "request" []], rest := .null }, timestamp := 0 }
  requestTimestamp := fun _ => 0

def plainSession : PlatformSession := { platformSessionId := "session", platformId := "qq", userId := "self" }

def plainGroup : IMConversation := { id := "group", kind := .group }

def plainMessage (id : String) (parts : List IMMessagePart) : IMMessage :=
  { id := id, conversationId := "group", senderId := "member", content := { parts := parts, rest := .null },
    timestamp := 1700000000 }

def plainImage (id : String) : IMMessagePart := .media { id := id, kind := .image, details := .null }

def shrunkAlbum : List (MessageReader × StoreOperation) :=
  [(plainReader, .ingest plainSession plainGroup (plainMessage "album" [plainImage "one", plainImage "two"]) .live),
   (plainReader, .ingest plainSession plainGroup (plainMessage "album" [plainImage "one"]) .live),
   (plainReader, .ingest plainSession plainGroup (plainMessage "next" [.text "next" []]) .live)]

theorem message_ids_of_shrunkAlbum :
    let now := Runs.final MessageStore.step Database.empty shrunkAlbum
    now.tables.parts.rows.length = 2 ∧
      now.tables.parts.rows.Pairwise (fun a b => a.scope = b.scope → a.tlMessageId ≠ b.tlMessageId) ∧
      ∀ a ∈ now.tables.parts.rows, 16 ≤ a.tlMessageId ∧ a.tlMessageId ≤ 0x7fffffff :=
  ⟨by decide +kernel, (message_id_names_one_message Database.empty Placed.nil shrunkAlbum []).1⟩

/-- **The id of the album's second image is the next message's.** -/
theorem message_id_reused :
    ∃ a ∈ (Runs.final MessageStore.step Database.empty (shrunkAlbum.take 1)).tables.parts.rows,
      ∃ b ∈ (Runs.final MessageStore.step Database.empty shrunkAlbum).tables.parts.rows,
        a.scope = b.scope ∧ a.tlMessageId = b.tlMessageId ∧ a.messageId ≠ b.messageId := by
  decide +kernel

end Crossgram
