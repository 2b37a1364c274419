import Crossgram.MessageOrder
import Crossgram.SlotSearch
/-!
# PartOrder — the parts of a message and their ids (packages/bridge/src/message-store.ts)

The ids of one allocation are sorted, those of an earlier one stay.  A message that gains parts keeps its ids in the order of
the ordinals exactly when the search tries enough other ids before it comes to a free one below those the message has.
-/
namespace Crossgram

open List

def PartsIncrease (parts : Table TlMessagePartRow) : Prop :=
  ∀ messageId, (partsOf parts messageId).Pairwise (fun a b => a.tlMessageId < b.tlMessageId)

def PartEvent.Undercuts : PartEvent → Prop
  | .allocated _ _ request parts => ∃ n, request.OpenSlot parts {} n ∧ (∃ id ∈ request.existingIds, n < id) ∧
    (request.trialOrder parts).idxOf n < request.count
  | .resequenced _ _ => False

/-! ## One allocation -/

/-- **An allocation hands out an id below one of the message's exactly when it undercuts.** -/
theorem undercuts_iff {conversationId : Nat} {nativeSequence : Option Nat} {q : SlotRequest} {parts : List TlMessagePartRow}
    {ids : List Int} (h : q.allocateSlottedMessageIds parts = .ok ids) :
    (PartEvent.allocated conversationId nativeSequence q parts).Undercuts ↔ ∃ n ∈ ids, ∃ id ∈ q.existingIds, n < id := by
  have hmem : ∀ n, n ∈ ids ↔ n ∈ (q.trialOrder parts).take q.count := by
    intro n
    unfold SlotRequest.allocateSlottedMessageIds at h
    split at h
    · cases h
    · cases h
      rw [(perm_insertionSort (· ≤ ·) (q.collected parts)).mem_iff, SlotRequest.collected_eq_take]
  unfold PartEvent.Undercuts
  dsimp only
  constructor
  · rintro ⟨n, hopen, hbelow, hidx⟩
    exact ⟨n, (hmem n).2 ((mem_take_iff_idxOf_lt (SlotRequest.mem_trialOrder.2 hopen)).2 hidx), hbelow⟩
  · rintro ⟨n, hn, hbelow⟩
    have htake := (hmem n).1 hn
    have htrial := mem_of_mem_take htake
    exact ⟨n, SlotRequest.mem_trialOrder.1 htrial, hbelow, (mem_take_iff_idxOf_lt htrial).1 htake⟩

theorem above_existing {conversationId : Nat} {nativeSequence : Option Nat} {q : SlotRequest}
    {parts : List TlMessagePartRow} {ids : List Int} (h : q.allocateSlottedMessageIds parts = .ok ids)
    (hclean : ¬(PartEvent.allocated conversationId nativeSequence q parts).Undercuts) :
    ∀ n ∈ ids, ∀ id ∈ q.existingIds, id < n := by
  intro n hn id hid
  rw [undercuts_iff h] at hclean
  have hle : id ≤ n := not_lt.1 (fun hlt => hclean ⟨n, hn, id, hid, hlt⟩)
  refine lt_of_le_of_ne hle ?_
  rintro rfl
  exact ((SlotRequest.allocated h).openSlots id hn).notExisting hid

/-! ## The placings -/

def InStep (a b : PartPlacing) : Prop := a.messageId = b.messageId → a.ordinal < b.ordinal → a.tlMessageId < b.tlMessageId

def IdsIncrease (ps : List PartPlacing) : Prop := ∀ a ∈ ps, ∀ b ∈ ps, InStep a b

theorem IdsIncrease.subset {ps ps' : List PartPlacing} (h : IdsIncrease ps) (hs : ps' ⊆ ps) : IdsIncrease ps' :=
  fun a ha b hb => h a (hs ha) b (hs hb)

theorem id_lt_of_ordinal_lt : ∀ {l : List TlMessagePartRow},
    l.Pairwise (fun a b => a.ordinal < b.ordinal ∧ a.tlMessageId < b.tlMessageId) →
      ∀ a ∈ l, ∀ b ∈ l, a.ordinal < b.ordinal → a.tlMessageId < b.tlMessageId
  | [], _, a, ha, _, _, _ => by cases ha
  | first :: l, h, a, ha, b, hb, hlt => by
    obtain ⟨hfirst, hrest⟩ := pairwise_cons.1 h
    rcases mem_cons.1 ha with heq | ha
    · rcases mem_cons.1 hb with heq' | hb
      · rw [heq, heq'] at hlt
        exact absurd hlt (Nat.lt_irrefl _)
      · exact heq ▸ (hfirst b hb).2
    · rcases mem_cons.1 hb with heq' | hb
      · rw [heq'] at hlt
        exact absurd hlt (Nat.lt_asymm (hfirst a ha).1)
      · exact id_lt_of_ordinal_lt hrest a ha b hb hlt

theorem partsIncrease_iff {parts : Table TlMessagePartRow} (hplaced : Placed (placings parts)) :
    PartsIncrease parts ↔ IdsIncrease (placings parts) := by
  have hsorted : ∀ messageId, (partsOf parts messageId).Pairwise (fun a b => a.ordinal < b.ordinal) := by
    intro messageId
    rw [← pairwise_map (f := fun part : TlMessagePartRow => part.ordinal), hplaced.partsOf_ordinals]
    exact pairwise_lt_range
  constructor
  · intro h a ha b hb hm hlt
    obtain ⟨row, hrow, rfl⟩ := mem_map.1 ha
    obtain ⟨row', hrow', rfl⟩ := mem_map.1 hb
    exact id_lt_of_ordinal_lt ((hsorted row.messageId).and (h row.messageId)) row (mem_partsOf.2 ⟨hrow, rfl⟩) row'
      (mem_partsOf.2 ⟨hrow', hm.symm⟩) hlt
  · intro h messageId
    refine List.Pairwise.imp_of_mem (fun {a b} ha hb hlt => ?_) (hsorted messageId)
    obtain ⟨hra, hma⟩ := mem_partsOf.1 ha
    obtain ⟨hrb, hmb⟩ := mem_partsOf.1 hb
    exact h a.placing (mem_map_of_mem hra) b.placing (mem_map_of_mem hrb) (hma.trans hmb.symm) hlt

/-! ## The steps of `_ensureProjection` -/

namespace Projecting

variable {p : Projecting}

theorem newParts_increase {groupedId : Option String} : ∀ {ids : List Int} (ordinal id : Nat), ids.Pairwise (· < ·) →
    (newParts p groupedId ordinal ids id).Pairwise (fun a b => a.ordinal < b.ordinal ∧ a.tlMessageId < b.tlMessageId) ∧
      ∀ row ∈ newParts p groupedId ordinal ids id, ordinal ≤ row.ordinal
  | [], _, _, _ => ⟨List.Pairwise.nil, fun _ h => by cases h⟩
  | tlMessageId :: ids, ordinal, id, h => by
    obtain ⟨hfirst, hrest⟩ := pairwise_cons.1 h
    obtain ⟨hpair, hordinal⟩ := @newParts_increase groupedId ids (ordinal + 1) (id + 1) hrest
    rw [newParts]
    refine ⟨List.Pairwise.cons (fun row hrow => ?_) hpair, fun row hrow => ?_⟩
    · obtain ⟨n, hn, ordinal', id', -, rfl⟩ := mem_newParts hrow
      exact ⟨hordinal _ hrow, hfirst n hn⟩
    · rcases mem_cons.1 hrow with rfl | hrow
      · exact Nat.le_refl _
      · exact Nat.le_of_succ_le (hordinal row hrow)

/-- **New parts keep the ids in step**, unless the allocation undercuts. -/
theorem increase_addParts {t t' : MessageTables} {cache cache' : List (String × Int)} {staying : List TlMessagePartRow}
    {groupedId : Option String} {ids : List Int} (hplaced : Placed (placings t.parts))
    (hcount : (ordinalsOf (placings t.parts) p.messageId).length = staying.length)
    (hids : ∀ row ∈ t.parts.rows, row.messageId = p.messageId → row.tlMessageId ∈ staying.map (fun part => part.tlMessageId))
    (h : p.addParts t cache staying groupedId = .ok ((t', cache'), ids)) (hclean : ∀ e ∈ t'.partEvents, ¬e.Undercuts)
    (hinc : IdsIncrease (placings t.parts)) : IdsIncrease (placings t'.parts) := by
  obtain ⟨hrows, -⟩ := rows_of_addParts hplaced hcount h
  rcases addParts_ok h with ⟨-, rfl, -, -⟩ | ⟨-, preferredId, epochs, -, halloc, rfl⟩
  · exact hinc
  · have hsorted : ids.Pairwise (· < ·) := SlotRequest.allocated_increasing halloc
    obtain ⟨hpair, hordinal⟩ := @newParts_increase p groupedId _ staying.length t.parts.nextId hsorted
    have habove := above_existing halloc (hclean _ (mem_append_right _ (mem_singleton_self _)))
    have hold := ordinal_lt_of_placed hplaced hcount
    intro a ha b hb hm hlt
    obtain ⟨row, hrow, rfl⟩ := mem_map.1 ha
    obtain ⟨row', hrow', rfl⟩ := mem_map.1 hb
    rw [hrows] at hrow hrow'
    rcases mem_append.1 hrow with hrow | hrow
    · rcases mem_append.1 hrow' with hrow' | hrow'
      · exact hinc _ (mem_map_of_mem hrow) _ (mem_map_of_mem hrow') hm hlt
      · obtain ⟨n, hn, ordinal', id', -, rfl⟩ := mem_newParts hrow'
        exact habove n hn _ (hids row hrow hm)
    · rcases mem_append.1 hrow' with hrow' | hrow'
      · obtain ⟨n, hn, ordinal', id', -, rfl⟩ := mem_newParts hrow
        exact absurd (hold row' hrow' hm.symm) (Nat.not_lt.2 (Nat.le_of_lt (Nat.lt_of_le_of_lt (hordinal _ hrow) hlt)))
      · exact id_lt_of_ordinal_lt hpair row hrow row' hrow' hlt

/-- **What `_ensureProjection` does to the order of the parts.** -/
theorem increase_ensureProjection {t t' : MessageTables} {cache cache' : List (String × Int)} {projected : Projected}
    (hplaced : Placed (placings t.parts)) (h : p.ensureProjection t cache = .ok ((t', cache'), projected))
    (hclean : ∀ e ∈ t'.partEvents, ¬e.Undercuts) (hinc : IdsIncrease (placings t.parts)) :
    IdsIncrease (placings t'.parts) := by
  obtain ⟨-, ⟨t₁, t₂, groupedId, hgroup, hadd, rfl⟩, -, -⟩ := steps h
  have hplac : placings t₁.parts = placings (p.retire t (partsOf t.parts p.messageId)).parts :=
    (placings_regroup hgroup).1.trans (placings_resequence _ _)
  have hplaced₁ : Placed (placings t₁.parts) := hplac ▸ placed_retire hplaced
  have hinc₁ : IdsIncrease (placings t₁.parts) := by
    rw [hplac]
    exact hinc.subset (List.Sublist.map _ filter_sublist).subset
  have hids : ∀ row ∈ t₁.parts.rows, row.messageId = p.messageId →
      row.tlMessageId ∈ (p.staying (partsOf t.parts p.messageId)).map (fun part => part.tlMessageId) := by
    intro row hrow hm
    have hmem : row.placing ∈ placings (p.retire t (partsOf t.parts p.messageId)).parts := hplac ▸ mem_map_of_mem hrow
    obtain ⟨row', hrow', heq⟩ := mem_map.1 hmem
    have hm' : row'.messageId = p.messageId := (congrArg PartPlacing.messageId heq).trans hm
    refine mem_map.2 ⟨row', ?_, congrArg PartPlacing.tlMessageId heq⟩
    exact (rows_of_message_after_retire t.parts).subset (mem_filter.2 ⟨hrow', decide_eq_true hm'⟩)
  rw [placings_refresh]
  exact increase_addParts hplaced₁ (ordinalsOf_retired t hplac) hids hadd hclean hinc₁

end Projecting

/-! ## Runs -/

structure KeepsIncrease (t t' : MessageTables) : Prop where
  placed : Placed (placings t'.parts)
  events : t.partEvents ⊆ t'.partEvents
  increase : (∀ e ∈ t'.partEvents, ¬e.Undercuts) → IdsIncrease (placings t.parts) → IdsIncrease (placings t'.parts)

theorem keepsIncrease_rule : ProjectionRule (fun t _ t' => Placed (placings t.parts) → KeepsIncrease t t') where
  unchanged := fun hp he hplaced => ⟨hp ▸ hplaced, he ▸ List.Subset.refl _, fun _ hinc => hp ▸ hinc⟩
  trans := fun h h' hplaced => by
    have h₁ := h hplaced
    have h₂ := h' h₁.placed
    exact ⟨h₂.placed, List.Subset.trans h₁.events h₂.events, fun hclean hinc =>
      h₂.increase hclean (h₁.increase (fun e he => hclean e (h₂.events he)) hinc)⟩
  kept := fun _ _ hplaced => ⟨hplaced, List.Subset.refl _, fun _ hinc => hinc⟩
  projected := fun h _ _ _ _ hplaced =>
    have ho := Projecting.orders hplaced h
    ⟨ho.placed, ho.events, Projecting.increase_ensureProjection hplaced h⟩

/-- **Album parts keep increasing ids** in every run in which no allocation undercuts the parts a message has. -/
theorem parts_keep_increasing (db : Database) (hplaced : Placed (placings db.tables.parts))
    (hinc : PartsIncrease db.tables.parts) (ops : List (MessageReader × StoreOperation))
    (hclean : ∀ e ∈ (Runs.final MessageStore.step db ops).tables.partEvents, ¬e.Undercuts) :
    PartsIncrease (Runs.final MessageStore.step db ops).tables.parts := by
  have hkeeps : KeepsIncrease db.tables (Runs.final MessageStore.step db ops).tables := run_rule keepsIncrease_rule ops db hplaced
  rw [partsIncrease_iff hkeeps.placed]
  exact hkeeps.increase hclean ((partsIncrease_iff hplaced).1 hinc)

def PartEvent.isAbove : PartEvent → Bool
  | .allocated _ _ request parts =>
    match request.allocateSlottedMessageIds parts with
    | .ok ids  => ids.all (fun n => request.existingIds.all (fun id => id < n))
    | .error _ => false
  | .resequenced _ _ => true

theorem not_undercuts_of_isAbove {e : PartEvent} (h : e.isAbove = true) : ¬e.Undercuts := by
  cases e with
  | resequenced part nativeSequence => exact fun hu => hu
  | allocated conversationId nativeSequence request parts =>
    unfold PartEvent.isAbove at h
    dsimp only at h
    split at h
    · rename_i ids halloc
      rw [undercuts_iff halloc]
      rintro ⟨n, hn, id, hid, hlt⟩
      have habove := all_eq_true.1 (all_eq_true.1 h n hn) id hid
      exact absurd (of_decide_eq_true habove) (not_lt.2 (le_of_lt hlt))
    · cases h

def regrownAlbum : List (MessageReader × StoreOperation) :=
  [(plainReader, .ingest plainSession plainGroup (plainMessage "album" [plainImage "one", plainImage "two"]) .live),
   (plainReader, .ingest plainSession plainGroup (plainMessage "next" [.text "next" []]) .live),
   (plainReader, .ingest plainSession plainGroup (plainMessage "album" [plainImage "one"]) .live),
   (plainReader, .ingest plainSession plainGroup (plainMessage "album" [plainImage "one", plainImage "two"]) .live)]

theorem parts_keep_increasing_regrownAlbum :
    (partsOf (Runs.final MessageStore.step Database.empty regrownAlbum).tables.parts 1).length = 2 ∧
      PartsIncrease (Runs.final MessageStore.step Database.empty regrownAlbum).tables.parts := by
  have habove : (Runs.final MessageStore.step Database.empty regrownAlbum).tables.partEvents.all PartEvent.isAbove = true := by
    decide +kernel
  refine ⟨by decide +kernel, parts_keep_increasing Database.empty Placed.nil (fun _ => List.Pairwise.nil) regrownAlbum ?_⟩
  exact fun e he => not_undercuts_of_isAbove (all_eq_true.1 habove e he)

def grownMessage : List (MessageReader × StoreOperation) :=
  [(plainReader, .ingest plainSession plainGroup
      { plainMessage "album" [plainImage "a"] with metadata := [("qqMsgSeq", .num 10)] } .live),
   (plainReader, .ingest plainSession plainGroup
      { plainMessage "album" [plainImage "a", plainImage "b", plainImage "c", plainImage "d"] with
        metadata := [("qqMsgSeq", .num 10)] } .live)]

/-- **The second part of a grown message has a lower id than its first.** -/
theorem grown_parts_out_of_order :
    ¬ ∀ ops, PartsIncrease (Runs.final MessageStore.step Database.empty ops).tables.parts := by
  intro hall
  have hparts := hall grownMessage 1
  revert hparts
  decide +kernel

end Crossgram
