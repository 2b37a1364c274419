import Crossgram.Lib.Results
import Crossgram.Lib.Runs
import Crossgram.MessageIngest
/-!
# MessageParts — what the store's operations do to the part rows

A part row's `placing` (scope, Telegram id, message, ordinal) is never rewritten.  `Placed` is what holds of the placings
at all times: ids of a scope distinct and in range, ordinals of a message without gaps.  `Evolves` is what a stretch of a
run does to them: a placing stays until an ingest of its message reports its id removed, and row ids are not used twice.
`apply_rule` carries what `_ensureProjection` does to the parts to every operation.
-/
namespace Crossgram

open List
open Results (bind_ok)

structure PartPlacing where
  id : Nat
  conversationId : Nat
  messageId : Nat
  ordinal : Nat
  scope : String
  tlMessageId : Int
  allocationVersion : Option Nat

def TlMessagePartRow.placing (row : TlMessagePartRow) : PartPlacing :=
  { id := row.id, conversationId := row.conversationId, messageId := row.messageId, ordinal := row.ordinal,
    scope := row.scope, tlMessageId := row.tlMessageId, allocationVersion := row.allocationVersion }

def placings (parts : Table TlMessagePartRow) : List PartPlacing := parts.rows.map TlMessagePartRow.placing

def ordinalsOf (ps : List PartPlacing) (messageId : Nat) : List Nat :=
  (ps.filter (fun p => p.messageId = messageId)).map (fun p => p.ordinal)

structure Placed (ps : List PartPlacing) : Prop where
  slots : ps.Pairwise (fun a b => a.scope = b.scope → a.tlMessageId ≠ b.tlMessageId)
  range : ∀ p ∈ ps, timestampMessageIdSlots ≤ p.tlMessageId ∧ p.tlMessageId ≤ telegramMessageIdMax
  ordinals : ∀ messageId, (ordinalsOf ps messageId).Perm (List.range (ordinalsOf ps messageId).length)

theorem Placed.nil : Placed [] := ⟨.nil, by simp, fun _ => List.Perm.refl _⟩

/-! ## Updates and removals -/

variable {parts : Table TlMessagePartRow}

theorem placings_set {which : TlMessagePartRow → Bool}
    {f : TlMessagePartRow → TlMessagePartRow} (h : ∀ row, Row.id (f row) = Row.id row)
    (hp : ∀ row, (f row).placing = row.placing) : placings (parts.set which f h) = placings parts := by
  unfold placings Table.set
  rw [map_map]
  refine map_congr_left (fun row _ => ?_)
  show (if which row then f row else row).placing = row.placing
  split
  · exact hp row
  · rfl

theorem eq_of_placing_id {p q : PartPlacing} (hp : p ∈ placings parts)
    (hq : q ∈ placings parts) (h : p.id = q.id) : p = q := by
  obtain ⟨a, ha, rfl⟩ := mem_map.1 hp
  obtain ⟨b, hb, rfl⟩ := mem_map.1 hq
  rw [Table.eq_of_id ha hb h]

theorem eq_range_of_perm {l : List Nat} {n : Nat} (hs : l.Pairwise (· ≤ ·)) (hp : l.Perm (List.range n)) :
    l = List.range n :=
  hp.eq_of_pairwise' hs (pairwise_lt_range.imp Nat.le_of_lt)

theorem partsOf_perm (parts : Table TlMessagePartRow) (messageId : Nat) :
    (partsOf parts messageId).Perm (parts.rows.filter (fun part => part.messageId = messageId)) :=
  perm_insertionSort _ _

theorem ordinalsOf_placings (parts : Table TlMessagePartRow) (messageId : Nat) : ordinalsOf (placings parts) messageId =
    (parts.rows.filter (fun part => part.messageId = messageId)).map (fun part => part.ordinal) := by
  unfold ordinalsOf placings
  rw [filter_map, map_map]
  rfl

/-- **The parts of a message have the ordinals from 0 up**, in that order. -/
theorem Placed.partsOf_ordinals (h : Placed (placings parts)) (messageId : Nat) :
    (partsOf parts messageId).map (fun part => part.ordinal) = List.range (partsOf parts messageId).length := by
  have hord := h.ordinals messageId
  rw [ordinalsOf_placings, length_map] at hord
  have hp := partsOf_perm parts messageId
  refine eq_range_of_perm ?_ (((hp.map _).trans hord).trans (List.Perm.of_eq (by rw [hp.length_eq])))
  rw [pairwise_map]
  refine @pairwise_insertionSort _ (fun (a b : TlMessagePartRow) => a.ordinal ≤ b.ordinal) _ ⟨?_⟩ ⟨?_⟩ _
  · intro a b
    exact Nat.le_total _ _
  · intro a b c
    exact Nat.le_trans

theorem nodup_partsOf_ids (parts : Table TlMessagePartRow) (messageId : Nat) :
    ((partsOf parts messageId).map (fun part => part.id)).Nodup := by
  refine ((partsOf_perm parts messageId).map _).nodup_iff.2 ?_
  rw [nodup_iff_pairwise_ne, pairwise_map]
  exact (parts.idsIncrease.filter _).imp (fun h => Nat.ne_of_lt h)

namespace Projecting

variable (p : Projecting)

theorem staying_append_leaving (existing : List TlMessagePartRow) :
    p.staying existing ++ p.leaving existing = existing := by
  unfold staying leaving
  split
  · rfl
  · exact take_append_drop _ _

theorem filter_not_among {l l' : List TlMessagePartRow} (hn : ((l ++ l').map (fun part => part.id)).Nodup) :
    (l ++ l').filter (fun row => !among l' row) = l := by
  rw [map_append, nodup_append] at hn
  rw [filter_append, filter_eq_self.2, filter_eq_nil_iff.2, append_nil]
  · intro row hrow
    simp only [among, Bool.not_eq_true', Bool.not_eq_false, any_eq_true, decide_eq_true_eq]
    exact ⟨row, hrow, rfl⟩
  · intro row hrow
    simp only [among, Bool.not_eq_true', any_eq_false, decide_eq_true_eq]
    intro other hother heq
    exact hn.2.2 row.id (mem_map_of_mem hrow) other.id (mem_map_of_mem hother) heq.symm

variable {p}

theorem leaving_of_message {parts : Table TlMessagePartRow} {row : TlMessagePartRow} (hrow : row ∈ parts.rows)
    (ha : among (p.leaving (partsOf parts p.messageId)) row = true) :
    row ∈ p.leaving (partsOf parts p.messageId) ∧ row.messageId = p.messageId := by
  simp only [among, any_eq_true, decide_eq_true_eq] at ha
  obtain ⟨part, hpart, hid⟩ := ha
  have hmem : part ∈ partsOf parts p.messageId := by
    rw [← p.staying_append_leaving (partsOf parts p.messageId)]
    exact mem_append_right _ hpart
  rw [mem_partsOf] at hmem
  obtain rfl := Table.eq_of_id hmem.1 hrow hid
  exact ⟨hpart, hmem.2⟩

/-- **What stays of the message's rows.** -/
theorem rows_of_message_after_retire (parts : Table TlMessagePartRow) :
    (((parts.remove (among (p.leaving (partsOf parts p.messageId)))).rows).filter
      (fun part => part.messageId = p.messageId)).Perm (p.staying (partsOf parts p.messageId)) := by
  have hn := nodup_partsOf_ids parts p.messageId
  rw [← p.staying_append_leaving (partsOf parts p.messageId)] at hn
  have hf := filter_not_among hn
  rw [p.staying_append_leaving] at hf
  rw [← hf]
  show ((parts.rows.filter _).filter _).Perm _
  rw [filter_comm]
  exact (partsOf_perm parts p.messageId).symm.filter _

theorem staying_ordinals {parts : Table TlMessagePartRow} (h : Placed (placings parts)) :
    (p.staying (partsOf parts p.messageId)).map (fun part => part.ordinal) =
      List.range (p.staying (partsOf parts p.messageId)).length := by
  unfold staying
  split
  · rfl
  · rw [map_take, h.partsOf_ordinals, take_range, length_take]

theorem placed_retire {t : MessageTables} (h : Placed (placings t.parts)) :
    Placed (placings (p.retire t (partsOf t.parts p.messageId)).parts) := by
  have hsub : List.Sublist (placings (p.retire t (partsOf t.parts p.messageId)).parts) (placings t.parts) :=
    List.Sublist.map _ filter_sublist
  refine ⟨h.slots.sublist hsub, fun q hq => h.range q (hsub.subset hq), fun messageId => ?_⟩
  rw [ordinalsOf_placings]
  by_cases hm : messageId = p.messageId
  · subst hm
    have hperm := (rows_of_message_after_retire (p := p) t.parts).map (fun part => part.ordinal)
    rw [staying_ordinals h] at hperm
    rw [length_map]
    refine hperm.trans (List.Perm.of_eq ?_)
    rw [← (rows_of_message_after_retire (p := p) t.parts).length_eq]
    rfl
  · have hsame : ((t.parts.remove (among (p.leaving (partsOf t.parts p.messageId)))).rows).filter
        (fun part => part.messageId = messageId) = t.parts.rows.filter (fun part => part.messageId = messageId) := by
      show (t.parts.rows.filter _).filter _ = _
      rw [filter_comm, filter_eq_self]
      intro row hrow
      rw [mem_filter, decide_eq_true_eq] at hrow
      by_contra hc
      rw [Bool.not_eq_true', Bool.not_eq_false] at hc
      exact hm (hrow.2.symm.trans (leaving_of_message hrow.1 hc).2)
    have hord := h.ordinals messageId
    rw [ordinalsOf_placings] at hord
    rw [show (p.retire t (partsOf t.parts p.messageId)).parts = t.parts.remove
      (among (p.leaving (partsOf t.parts p.messageId))) from rfl, hsame]
    exact hord

/-! ## New parts -/

def newParts (p : Projecting) (groupedId : Option String) : Nat → List Int → Nat → List TlMessagePartRow
  | _,       [],                _  => []
  | ordinal, tlMessageId :: ids, id =>
    p.partRow groupedId ordinal tlMessageId id :: newParts p groupedId (ordinal + 1) ids (id + 1)

/-- **Past the last ordinal nothing is overwritten.** -/
theorem upsertParts_rows (groupedId : Option String) : ∀ (ids : List Int) (ordinal : Nat) (parts : Table TlMessagePartRow),
    (∀ row ∈ parts.rows, row.messageId = p.messageId → row.ordinal < ordinal) →
    (p.upsertParts groupedId ordinal ids parts).rows = parts.rows ++ newParts p groupedId ordinal ids parts.nextId ∧
      parts.nextId ≤ (p.upsertParts groupedId ordinal ids parts).nextId
  | [], ordinal, parts, _ => by simp [upsertParts, newParts]
  | tlMessageId :: ids, ordinal, parts, h => by
    have hnone : parts.rows.any (p.hasOrdinal ordinal) = false := by
      simp only [any_eq_false, hasOrdinal, decide_eq_true_eq]
      rintro row hrow ⟨hm, ho⟩
      exact Nat.lt_irrefl _ (ho ▸ h row hrow hm)
    have hins : parts.upsert (p.hasOrdinal ordinal) (fun row => p.partRow groupedId ordinal tlMessageId row.id)
        (fun _ => rfl) (p.partRow groupedId ordinal tlMessageId) (fun _ => rfl) =
        parts.insert (p.partRow groupedId ordinal tlMessageId) (fun _ => rfl) := by
      unfold Table.upsert
      rw [hnone]
      rfl
    obtain ⟨hrows, hnext⟩ := upsertParts_rows groupedId ids (ordinal + 1)
      (parts.insert (p.partRow groupedId ordinal tlMessageId) (fun _ => rfl)) (fun row hrow hm => by
        rcases Table.mem_insert.1 hrow with hrow | rfl
        · exact Nat.lt_succ_of_lt (h row hrow hm)
        · exact Nat.lt_succ_self _)
    rw [upsertParts, hins]
    refine ⟨?_, Nat.le_trans (Nat.le_succ _) hnext⟩
    rw [hrows, newParts]
    show (parts.rows ++ [_]) ++ _ = _
    rw [append_assoc, singleton_append]
    rfl

variable {groupedId : Option String}

theorem mem_newParts : ∀ {ids : List Int} {ordinal id : Nat} {row : TlMessagePartRow},
    row ∈ newParts p groupedId ordinal ids id → ∃ tlMessageId ∈ ids, ∃ ordinal' id', id ≤ id' ∧
      row = p.partRow groupedId ordinal' tlMessageId id'
  | tlMessageId :: ids, ordinal, id, row, h => by
    rw [newParts] at h
    rcases mem_cons.1 h with rfl | h
    · exact ⟨tlMessageId, mem_cons_self, ordinal, id, Nat.le_refl _, rfl⟩
    · obtain ⟨n, hn, ordinal', id', hid, hrow⟩ := mem_newParts h
      exact ⟨n, mem_cons_of_mem _ hn, ordinal', id', by omega, hrow⟩

theorem newParts_slots : ∀ {ids : List Int} (ordinal id : Nat), ids.Nodup →
    (newParts p groupedId ordinal ids id).Pairwise (fun a b => a.tlMessageId ≠ b.tlMessageId)
  | [], _, _, _ => List.Pairwise.nil
  | tlMessageId :: ids, ordinal, id, h => by
    rw [nodup_cons] at h
    refine List.Pairwise.cons (fun row hrow heq => ?_) (newParts_slots (ordinal + 1) (id + 1) h.2)
    obtain ⟨n, hn, ordinal', id', -, rfl⟩ := mem_newParts hrow
    have : tlMessageId = n := heq
    exact h.1 (this ▸ hn)

theorem newParts_ordinals : ∀ (ids : List Int) (ordinal id : Nat),
    (newParts p groupedId ordinal ids id).map (fun part => part.ordinal) = List.range' ordinal ids.length
  | [], _, _ => rfl
  | tlMessageId :: ids, ordinal, id => by
    rw [newParts, map_cons, newParts_ordinals ids (ordinal + 1) (id + 1), length_cons, List.range'_succ]
    rfl

theorem filter_newParts (messageId : Nat) (ids : List Int) (ordinal id : Nat) :
    (newParts p groupedId ordinal ids id).filter (fun part => part.messageId = messageId) =
      if messageId = p.messageId then newParts p groupedId ordinal ids id else [] := by
  split
  · rename_i hm
    rw [filter_eq_self]
    intro row hrow
    obtain ⟨n, -, ordinal', id', -, rfl⟩ := mem_newParts hrow
    simp [partRow, hm]
  · rename_i hm
    rw [filter_eq_nil_iff]
    intro row hrow
    obtain ⟨n, -, ordinal', id', -, rfl⟩ := mem_newParts hrow
    simp [partRow, Ne.symm hm]

/-- **Open ids may be given to the next ordinals.** -/
theorem Placed.append {parts parts' : Table TlMessagePartRow} {ids : List Int} {ordinal : Nat}
    (h : Placed (placings parts)) (hcount : (ordinalsOf (placings parts) p.messageId).length = ordinal)
    (hrows : parts'.rows = parts.rows ++ newParts p groupedId ordinal ids parts.nextId) (hnodup : ids.Nodup)
    (hopen : ∀ n ∈ ids, (timestampMessageIdSlots ≤ n ∧ n ≤ telegramMessageIdMax) ∧
      ∀ row ∈ parts.rows, row.scope = p.scope → row.tlMessageId ≠ n) : Placed (placings parts') := by
  have hplac : placings parts' = placings parts ++
      (newParts p groupedId ordinal ids parts.nextId).map TlMessagePartRow.placing := by
    unfold placings
    rw [hrows, map_append]
  refine ⟨?_, ?_, fun messageId => ?_⟩
  · rw [hplac, pairwise_append]
    refine ⟨h.slots, ?_, fun a ha b hb hs => ?_⟩
    · rw [pairwise_map]
      refine (newParts_slots ordinal parts.nextId hnodup).imp ?_
      intro a b hne _
      exact hne
    · obtain ⟨row, hrow, rfl⟩ := mem_map.1 ha
      obtain ⟨new, hnew, rfl⟩ := mem_map.1 hb
      obtain ⟨n, hn, ordinal', id', -, rfl⟩ := mem_newParts hnew
      exact (hopen n hn).2 row hrow hs
  · intro q hq
    rw [hplac] at hq
    rcases mem_append.1 hq with hq | hq
    · exact h.range q hq
    · obtain ⟨new, hnew, rfl⟩ := mem_map.1 hq
      obtain ⟨n, hn, ordinal', id', -, rfl⟩ := mem_newParts hnew
      exact (hopen n hn).1
  · have hord := h.ordinals messageId
    rw [ordinalsOf_placings] at hord hcount ⊢
    rw [hrows, filter_append, map_append, filter_newParts]
    split
    · rename_i hm
      subst hm
      rw [newParts_ordinals, length_append, length_range', range_eq_range', ← List.range'_append_1,
        Nat.zero_add, hcount]
      rw [hcount, range_eq_range'] at hord
      exact hord.append_right _
    · rw [map_nil, append_nil]
      exact hord

/-! ## `_ensureProjection`, step by step -/

/-- The states `_ensureProjection` goes through. -/
structure Steps (p : Projecting) (t : MessageTables) (cache : List (String × Int)) (t' : MessageTables)
    (cache' : List (String × Int)) (projected : Projected) : Prop where
  planned : p.plan.parts ≠ []
  run : ∃ t₁ t₂ groupedId,
    p.regroup (p.resequence (p.retire t (partsOf t.parts p.messageId)) (p.staying (partsOf t.parts p.messageId)))
      (partsOf t.parts p.messageId) (p.staying (partsOf t.parts p.messageId)) = .ok (t₁, groupedId) ∧
    p.addParts t₁ cache (p.staying (partsOf t.parts p.messageId)) groupedId =
      .ok ((t₂, cache'), projected.addedTlMessageIds) ∧
    t' = p.refresh t₂ groupedId
  removed : projected.removedTlMessageIds = (p.leaving (partsOf t.parts p.messageId)).map (fun part => part.tlMessageId)
  projection : projected.projection = partsOf t'.parts p.messageId

variable {t t' : MessageTables}

theorem steps {cache cache' : List (String × Int)} {projected : Projected}
    (h : p.ensureProjection t cache = .ok ((t', cache'), projected)) : p.Steps t cache t' cache' projected := by
  unfold ensureProjection at h
  by_cases hplan : p.plan.parts = []
  · rw [if_pos hplan] at h
    cases h
  · rw [if_neg hplan] at h
    simp only [bind_ok] at h
    obtain ⟨⟨t₁, groupedId⟩, hgroup, ⟨⟨t₂, cache₂⟩, ids⟩, hadd, hret⟩ := h
    cases hret
    exact ⟨hplan, ⟨t₁, t₂, groupedId, hgroup, hadd, rfl⟩, rfl, rfl⟩

theorem regroup_ok {existing staying : List TlMessagePartRow}
    (h : p.regroup t existing staying = .ok (t', groupedId)) : ∃ counters parts,
      t' = { t with counters := counters, parts := parts } ∧
        (parts = t.parts ∨ ∃ groupedId, parts = (p.setGroupedId t groupedId).parts) := by
  unfold regroup at h
  simp only at h
  split at h
  · cases h
    exact ⟨t.counters, _, rfl, Or.inr ⟨none, rfl⟩⟩
  · split at h
    · rw [bind_ok] at h
      obtain ⟨⟨counters, ids⟩, -, hret⟩ := h
      cases hret
      split
      · exact ⟨counters, _, rfl, Or.inr ⟨_, rfl⟩⟩
      · exact ⟨counters, t.parts, rfl, Or.inl rfl⟩
    · cases h
      exact ⟨t.counters, t.parts, rfl, Or.inl rfl⟩

theorem addParts_ok {cache cache' : List (String × Int)} {staying : List TlMessagePartRow}
    {ids : List Int} (h : p.addParts t cache staying groupedId = .ok ((t', cache'), ids)) :
    (p.count ≤ staying.length ∧ t' = t ∧ cache' = cache ∧ ids = []) ∨
      (staying.length < p.count ∧ ∃ preferredId epochs,
        p.preferred t cache (p.bounds t.parts.rows) = .ok ((epochs, cache'), preferredId) ∧
        (p.request staying (p.bounds t.parts.rows) preferredId).allocateSlottedMessageIds t.parts.rows = .ok ids ∧
        t' = { t with
          epochs := epochs
          parts := p.upsertParts groupedId staying.length ids t.parts
          partEvents := t.partEvents ++ [.allocated p.conversationId p.nativeSequence
            (p.request staying (p.bounds t.parts.rows) preferredId) t.parts.rows] }) := by
  unfold addParts at h
  split at h
  · rename_i hle
    cases h
    exact Or.inl ⟨hle, rfl, rfl, rfl⟩
  · rename_i hlt
    simp only [bind_ok] at h
    obtain ⟨⟨⟨epochs, cache₁⟩, preferredId⟩, hpref, ids', halloc, hret⟩ := h
    cases hret
    exact Or.inr ⟨by omega, preferredId, epochs, hpref, halloc, rfl⟩

end Projecting

/-! ## A stretch of a run -/

/-- What becomes of the placings; `gone` is what is known of the ids that are no longer a message's. -/
structure Evolves (gone : Nat → Int → Prop) (before after : Table TlMessagePartRow) : Prop where
  kept : ∀ q ∈ placings before, q ∈ placings after ∨ gone q.messageId q.tlMessageId
  old : ∀ q ∈ placings after, q.id < before.nextId → q ∈ placings before
  nextId : before.nextId ≤ after.nextId

namespace Evolves

variable {gone gone' : Nat → Int → Prop} {a b c : Table TlMessagePartRow}

theorem of_placings (hp : placings b = placings a) (hn : b.nextId = a.nextId) : Evolves gone a b :=
  ⟨fun _ hq => Or.inl (hp ▸ hq), fun _ hq _ => hp ▸ hq, Nat.le_of_eq hn.symm⟩

theorem mono (hg : ∀ m n, gone m n → gone' m n) (h : Evolves gone a b) : Evolves gone' a b :=
  ⟨fun q hq => (h.kept q hq).imp id (hg _ _), h.old, h.nextId⟩

theorem trans (h : Evolves gone a b) (h' : Evolves gone b c) : Evolves gone a c where
  kept := fun q hq => by
    rcases h.kept q hq with hq | hq
    · exact h'.kept q hq
    · exact Or.inr hq
  old := fun q hq hlt => h.old q (h'.old q hq (Nat.lt_of_lt_of_le hlt h.nextId)) hlt
  nextId := Nat.le_trans h.nextId h'.nextId

end Evolves

namespace Projecting

variable {p : Projecting}

theorem evolves_retire (t : MessageTables) : Evolves
    (fun m n => m = p.messageId ∧ n ∈ (p.leaving (partsOf t.parts p.messageId)).map (fun part => part.tlMessageId))
    t.parts (p.retire t (partsOf t.parts p.messageId)).parts where
  kept := fun q hq => by
    obtain ⟨row, hrow, rfl⟩ := mem_map.1 hq
    cases ha : among (p.leaving (partsOf t.parts p.messageId)) row with
    | false => exact Or.inl (mem_map_of_mem (Table.mem_remove.2 ⟨hrow, ha⟩))
    | true =>
      obtain ⟨hl, hm⟩ := leaving_of_message hrow ha
      exact Or.inr ⟨hm, mem_map_of_mem hl⟩
  old := fun q hq _ => (List.Sublist.map _ filter_sublist).subset hq
  nextId := Nat.le_refl _

variable {groupedId : Option String}

theorem evolves_append {gone : Nat → Int → Prop} {parts parts' : Table TlMessagePartRow}
    {ids : List Int} {ordinal : Nat} (hrows : parts'.rows = parts.rows ++ newParts p groupedId ordinal ids parts.nextId)
    (hnext : parts.nextId ≤ parts'.nextId) : Evolves gone parts parts' := by
  have hplac : placings parts' = placings parts ++
      (newParts p groupedId ordinal ids parts.nextId).map TlMessagePartRow.placing := by
    unfold placings
    rw [hrows, map_append]
  refine ⟨fun q hq => Or.inl (hplac ▸ mem_append_left _ hq), fun q hq hlt => ?_, hnext⟩
  rw [hplac] at hq
  rcases mem_append.1 hq with hq | hq
  · exact hq
  · obtain ⟨new, hnew, rfl⟩ := mem_map.1 hq
    obtain ⟨n, -, ordinal', id', hid, rfl⟩ := mem_newParts hnew
    exact absurd hlt (Nat.not_lt.2 hid)

theorem placings_resequence (t : MessageTables) (staying : List TlMessagePartRow) :
    placings (p.resequence t staying).parts = placings t.parts := by
  refine placings_set ?_ ?_ <;> exact fun _ => rfl

variable {t t' : MessageTables}

theorem placings_regroup {existing staying : List TlMessagePartRow}
    (h : p.regroup t existing staying = .ok (t', groupedId)) :
    placings t'.parts = placings t.parts ∧ t'.parts.nextId = t.parts.nextId := by
  obtain ⟨counters, parts, rfl, rfl | ⟨g, rfl⟩⟩ := regroup_ok h
  · exact ⟨rfl, rfl⟩
  · refine ⟨placings_set ?_ ?_, rfl⟩ <;> exact fun _ => rfl

theorem placings_refresh (t : MessageTables) (groupedId : Option String) :
    placings (p.refresh t groupedId).parts = placings t.parts := by
  refine placings_set ?_ ?_ <;> exact fun _ => rfl

theorem ordinalsOf_retired {parts : Table TlMessagePartRow} (t : MessageTables)
    (h : placings parts = placings (p.retire t (partsOf t.parts p.messageId)).parts) :
    (ordinalsOf (placings parts) p.messageId).length = (p.staying (partsOf t.parts p.messageId)).length := by
  rw [h, ordinalsOf_placings, length_map]
  exact (rows_of_message_after_retire (p := p) t.parts).length_eq

/-- **What an allocation adds to the part rows.** -/
theorem ordinal_lt_of_placed {t : MessageTables} {n : Nat} (hplaced : Placed (placings t.parts))
    (hcount : (ordinalsOf (placings t.parts) p.messageId).length = n) :
    ∀ row ∈ t.parts.rows, row.messageId = p.messageId → row.ordinal < n := by
  intro row hrow hm
  have hord := hplaced.ordinals p.messageId
  rw [hcount] at hord
  have hmem : row.ordinal ∈ ordinalsOf (placings t.parts) p.messageId := by
    rw [ordinalsOf_placings]
    exact mem_map_of_mem (mem_filter.2 ⟨hrow, by simpa using hm⟩)
  exact mem_range.1 (hord.subset hmem)

theorem rows_of_addParts {cache cache' : List (String × Int)} {staying : List TlMessagePartRow}
    {ids : List Int} (hplaced : Placed (placings t.parts))
    (hcount : (ordinalsOf (placings t.parts) p.messageId).length = staying.length)
    (h : p.addParts t cache staying groupedId = .ok ((t', cache'), ids)) :
    t'.parts.rows = t.parts.rows ++ newParts p groupedId staying.length ids t.parts.nextId ∧
      t.parts.nextId ≤ t'.parts.nextId := by
  rcases addParts_ok h with ⟨-, rfl, -, rfl⟩ | ⟨-, preferredId, epochs, -, -, rfl⟩
  · exact ⟨by simp [newParts], Nat.le_refl _⟩
  · exact upsertParts_rows groupedId ids staying.length t.parts (ordinal_lt_of_placed hplaced hcount)

/-- **What `_ensureProjection` does to the placings.** -/
theorem placed_ensureProjection {cache cache' : List (String × Int)} {projected : Projected}
    (hplaced : Placed (placings t.parts)) (h : p.ensureProjection t cache = .ok ((t', cache'), projected)) :
    Placed (placings t'.parts) ∧
      Evolves (fun m n => m = p.messageId ∧ n ∈ projected.removedTlMessageIds) t.parts t'.parts := by
  obtain ⟨-, ⟨t₁, t₂, groupedId, hgroup, hadd, rfl⟩, hremoved, -⟩ := steps h
  obtain ⟨hp₁, hn₁⟩ := placings_regroup hgroup
  rw [placings_resequence] at hp₁
  have hplaced₁ : Placed (placings t₁.parts) := hp₁ ▸ placed_retire hplaced
  have hcount := ordinalsOf_retired t hp₁
  obtain ⟨hrows, hnext⟩ := rows_of_addParts hplaced₁ hcount hadd
  have hplaced₂ : Placed (placings t₂.parts) := by
    rcases addParts_ok hadd with ⟨-, rfl, -, -⟩ | ⟨-, preferredId, epochs, -, halloc, -⟩
    · exact hplaced₁
    · have ha := SlotRequest.allocated halloc
      exact Placed.append hplaced₁ hcount hrows ha.nodup (fun n hn =>
        ⟨⟨(ha.openSlots n hn).lower, (ha.openSlots n hn).upper⟩, (ha.openSlots n hn).notStored⟩)
  refine ⟨placings_refresh t₂ groupedId ▸ hplaced₂, ?_⟩
  rw [hremoved]
  have h₁ : Evolves (fun m n => m = p.messageId ∧
      n ∈ (p.leaving (partsOf t.parts p.messageId)).map (fun part => part.tlMessageId)) t.parts t₁.parts :=
    (evolves_retire t).trans (Evolves.of_placings hp₁ hn₁)
  exact (h₁.trans (evolves_append hrows hnext)).trans (Evolves.of_placings (placings_refresh t₂ groupedId) rfl)

end Projecting

/-! ## Every operation -/

/-- A relation between the tables before and after, and what the ingestions in between answered, that is kept by each
ingestion and by stretches in a row. -/
structure ProjectionRule (R : MessageTables → List IngestResult → MessageTables → Prop) : Prop where
  unchanged : ∀ {t t'}, t'.parts = t.parts → t'.partEvents = t.partEvents → R t [] t'
  trans : ∀ {t t' t'' results results'}, R t results t' → R t' results' t'' → R t (results ++ results') t''
  kept : ∀ {t result}, result.addedTlMessageIds = [] → result.removedTlMessageIds = [] → R t [result] t
  projected : ∀ {p : Projecting} {t t' cache cache' projected result},
    p.ensureProjection t cache = .ok ((t', cache'), projected) → result.message.id = p.messageId →
      result.projection = projected.projection → result.addedTlMessageIds = projected.addedTlMessageIds →
      result.removedTlMessageIds = projected.removedTlMessageIds → R t [result] t'

section Rule

variable {R : MessageTables → List IngestResult → MessageTables → Prop} {g : Ingesting}

variable {source : IMMessage} {cache : List (String × Int)} {t : MessageTables}

theorem Ingesting.writeStored_rule (hR : ProjectionRule R) {senderUserId searchKinds : Nat}
    {stored : Option IMMessageRow} {changed : Bool} {s : StoredMessage}
    (h : g.writeStored source senderUserId searchKinds stored changed t cache = .ok s) : R t [s.result] s.tables := by
  unfold writeStored at h
  simp only [bind_ok] at h
  obtain ⟨⟨messages, message⟩, -, ⟨⟨t₁, cache₁⟩, projected⟩, hproj, hret⟩ := h
  cases hret
  have h₀ : R t [] { t with
      messages := messages
      aliases := upsertAliases g.session.platformSessionId g.conversation.id message.id 0 source.allSourceIds t.aliases
      media := (storeMedia message.id 0 (mediaOf source) t.media).1 } := hR.unchanged rfl rfl
  have h₁ : R _ [{
      message := message, created := stored.isNone, changed := changed, projection := projected.projection
      addedTlMessageIds := projected.addedTlMessageIds, removedTlMessageIds := projected.removedTlMessageIds }] _ :=
    hR.projected hproj rfl rfl rfl rfl
  exact hR.trans (hR.trans h₀ h₁) (hR.unchanged (replaceReactions_parts _ _ _) (replaceReactions_partEvents _ _ _))

theorem Ingesting.keepMessage_rule (hR : ProjectionRule R) {stored : IMMessageRow}
    {searchKinds : Nat} {projectionOf : Nat → Option (List TlMessagePartRow)} :
    R t [(g.keepMessage source stored searchKinds projectionOf t cache).result]
      (g.keepMessage source stored searchKinds projectionOf t cache).tables := by
  have hunchanged : R t [] (g.keepMessage source stored searchKinds projectionOf t cache).tables := by
    refine hR.unchanged ?_ ?_
    · unfold keepMessage
      simp only [replaceReactions_parts]
      split <;> rfl
    · unfold keepMessage
      simp only [replaceReactions_partEvents]
      split <;> rfl
  exact hR.trans hunchanged (hR.kept rfl rfl)

theorem Ingesting.settle_rule (hR : ProjectionRule R) {senderUserId : Nat}
    {existing : Option IMMessageAliasRow} {message : Option IMMessageRow}
    {projectionOf : Nat → Option (List TlMessagePartRow)}
    {s : StoredMessage} (h : g.settle source senderUserId existing message projectionOf t cache = .ok s) :
    R t [s.result] s.tables := by
  unfold settle at h
  split at h
  · simp only at h
    split at h
    · cases h
      exact keepMessage_rule hR
    · exact writeStored_rule hR h
  · exact writeStored_rule hR h

/-- A relation as of `ProjectionRule` that is known of each message stored, whatever tables it is about. -/
structure StoreRule (R : MessageTables → List IngestResult → MessageTables → Prop) : Prop where
  refl : ∀ {t}, R t [] t
  trans : ∀ {t t' t'' results results'}, R t results t' → R t' results' t'' → R t (results ++ results') t''
  settled : ∀ {g : Ingesting} {source senderUserId existing message projectionOf t cache s},
    g.settle source senderUserId existing message projectionOf t cache = .ok s → R t [s.result] s.tables

theorem ProjectionRule.storeRule (hR : ProjectionRule R) : StoreRule R :=
  ⟨hR.unchanged rfl rfl, hR.trans, Ingesting.settle_rule hR⟩

variable {w w' : Ingestion}

theorem Ingesting.ingestMessage_rule (hR : StoreRule R) {result : IngestResult}
    (h : g.ingestMessage w source = .ok (w', result)) : R w.db.tables [result] w'.db.tables := by
  unfold ingestMessage at h
  simp only [bind_ok] at h
  obtain ⟨s, hs, hret⟩ := h
  cases hret
  exact hR.settled hs

theorem Ingesting.ingestEach_rule (hR : StoreRule R) : ∀ {sources : List IMMessage} {w w' : Ingestion}
    {results : List IngestResult}, g.ingestEach w sources = .ok (w', results) → R w.db.tables results w'.db.tables
  | [], w, w', results, h => by
    cases h
    exact hR.refl
  | source :: sources, w, w', results, h => by
    rw [ingestEach] at h
    simp only [bind_ok] at h
    obtain ⟨⟨w₁, result⟩, h₁, ⟨w₂, results₂⟩, h₂, hret⟩ := h
    cases hret
    exact hR.trans (ingestMessage_rule hR h₁) (ingestEach_rule hR h₂)

theorem upsertConversation_tables (db : Database) (session : PlatformSession) (conversation : IMConversation)
    (unreadCount : Option Nat) : (upsertConversation db session conversation unreadCount).1.tables = db.tables := by
  unfold upsertConversation
  simp only
  split <;> rfl

theorem startIngestion_tables (db : Database) (session : PlatformSession) (conversation : IMConversationRow)
    (sources : List IMMessage) (allocation : Allocation) :
    (startIngestion db session conversation sources allocation).db.tables = db.tables := by
  unfold startIngestion
  split <;> rfl

variable {results : List IngestResult} {reader : MessageReader} {session : PlatformSession} {db db' : Database}

theorem ingestMany_rule (hR : StoreRule R)
    {conversation : IMConversation} {sources : List IMMessage} {allocation : Allocation}
    (h : ingestMany reader db session conversation sources allocation = .ok (db', results)) :
    R db.tables results db'.tables := by
  unfold ingestMany at h
  split at h
  · cases h
  · split at h
    · cases h
      exact hR.refl
    · simp only at h
      rw [← upsertConversation_tables db session conversation none, ← startIngestion_tables _ session
        (upsertConversation db session conversation none).2 sources allocation]
      generalize startIngestion _ session (upsertConversation db session conversation none).2 sources allocation = w at h ⊢
      cases hrun : Ingesting.ingestEach _ w sources with
      | error e => rw [hrun] at h; cases h
      | ok out =>
        rw [hrun] at h
        cases h
        exact Ingesting.ingestEach_rule hR hrun

theorem ingestDialogMessage_rule (hR : StoreRule R)
    {row : IMConversationRow} {allocation : Allocation} {source : Option IMMessage}
    (h : ingestDialogMessage reader session row w allocation source = .ok (w', results)) :
    R w.db.tables results w'.db.tables := by
  cases source with
  | none =>
    cases h
    exact hR.refl
  | some source =>
    unfold ingestDialogMessage at h
    simp only [bind_ok] at h
    obtain ⟨⟨w₁, result⟩, h₁, hret⟩ := h
    cases hret
    exact Ingesting.ingestMessage_rule hR h₁

theorem ingestDialog_rule (hR : StoreRule R)
    {dialog : IMDialog} (h : ingestDialog reader session w dialog = .ok (w', results)) :
    R w.db.tables results w'.db.tables := by
  unfold ingestDialog at h
  split at h
  · cases h
  · simp only [bind_ok] at h
    obtain ⟨⟨w₁, latest⟩, h₁, ⟨w₂, boundary⟩, h₂, hret⟩ := h
    cases hret
    have hboundary : R w₁.db.tables boundary w₂.db.tables := ingestDialogMessage_rule hR h₂
    exact hR.trans (ingestDialogMessage_rule hR h₁) hboundary

theorem ingestEachDialog_rule (hR : StoreRule R) :
    ∀ {dialogs : List IMDialog} {w w' : Ingestion} {results : List IngestResult},
      ingestEachDialog reader session w dialogs = .ok (w', results) → R w.db.tables results w'.db.tables
  | [], w, w', results, h => by
    cases h
    exact hR.refl
  | dialog :: dialogs, w, w', results, h => by
    rw [ingestEachDialog] at h
    simp only [bind_ok] at h
    obtain ⟨⟨w₁, results₁⟩, h₁, ⟨w₂, results₂⟩, h₂, hret⟩ := h
    cases hret
    exact hR.trans (ingestDialog_rule hR h₁) (ingestEachDialog_rule hR h₂)

theorem ingestDialogs_rule (hR : StoreRule R) {dialogs : List IMDialog}
    (h : ingestDialogs reader db session dialogs = .ok (db', results)) : R db.tables results db'.tables := by
  unfold ingestDialogs at h
  split at h
  · cases h
  · simp only at h
    cases hrun : ingestEachDialog reader session
        { db := { db with conversations := upsertDialogs db.conversations session dialogs }, cache := [], prefetch := none }
        dialogs with
    | error e => rw [hrun] at h; cases h
    | ok out =>
      rw [hrun] at h
      cases h
      exact ingestEachDialog_rule hR hrun

theorem ingestRequest_rule (hR : StoreRule R) {request : IMRequest} {now : Int}
    (h : ingestRequest reader db session request now = .ok (db', results)) : R db.tables results db'.tables := by
  unfold ingestRequest at h
  simp only [bind_ok] at h
  obtain ⟨⟨w, result⟩, h₁, hret⟩ := h
  cases hret
  have h₂ := Ingesting.ingestMessage_rule hR h₁
  rw [upsertConversation_tables] at h₂
  exact h₂

/-- **The rule of the operations that store messages.** -/
theorem apply_store_rule (hR : StoreRule R) {op : StoreOperation}
    (hop : ∀ session conversation ids, op ≠ .deleteMessages session conversation ids)
    (h : MessageStore.apply reader db op = .ok (db', results)) : R db.tables results db'.tables := by
  cases op with
  | ingest session conversation source allocation => exact ingestMany_rule hR h
  | ingestMany session conversation sources allocation => exact ingestMany_rule hR h
  | ingestDialogs session dialogs => exact ingestDialogs_rule hR h
  | ingestRequest session request now => exact ingestRequest_rule hR h
  | deleteMessages session conversation ids => exact absurd rfl (hop session conversation ids)

/-- **The rule of the operations.** -/
theorem apply_rule (hR : ProjectionRule R) {op : StoreOperation}
    (h : MessageStore.apply reader db op = .ok (db', results)) :
    R db.tables results db'.tables := by
  by_cases hop : ∀ session conversation ids, op ≠ .deleteMessages session conversation ids
  · exact apply_store_rule hR.storeRule hop h
  · push Not at hop
    obtain ⟨session, conversation, ids, rfl⟩ := hop
    cases h
    have htables := upsertConversation_tables db session conversation none
    refine hR.unchanged ?_ ?_
    · show (upsertConversation db session conversation none).1.tables.parts = _
      rw [htables]
    · show (upsertConversation db session conversation none).1.tables.partEvents = _
      rw [htables]

def ingested (c : Runs.Call Database (MessageReader × StoreOperation) (Except JsError (List IngestResult))) :
    List IngestResult :=
  match c.reply with
  | .ok results => results
  | .error _    => []

/-- **The rule of runs.** -/
theorem run_rule (hR : ProjectionRule R) : ∀ (ops : List (MessageReader × StoreOperation)) (db : Database),
    R db.tables ((Runs.calls MessageStore.step db ops).flatMap ingested) (Runs.final MessageStore.step db ops).tables
  | [], db => hR.unchanged rfl rfl
  | op :: ops, db => by
    rw [Runs.calls, flatMap_cons, Runs.final_cons]
    refine hR.trans ?_ (run_rule hR ops _)
    unfold Runs.callAt MessageStore.step ingested
    cases happ : MessageStore.apply op.1 db op.2 with
    | error e => exact hR.unchanged rfl rfl
    | ok out => exact apply_rule hR happ

end Rule

end Crossgram
