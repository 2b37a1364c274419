import Crossgram.ReplyTargets
/-!
# ReactionRows — the reactions of a stored message (packages/bridge/src/message-store.ts)

A message keeps one row for each reaction it shows, under the platform's key and with its definition.  What a context
writes is read back: `_hydrateMessages` gives the summaries that were written and have a definition, in row order.
-/
namespace Crossgram

open Maps List

def IMReactionDefinition.ofJson (definition : Json) : IMReactionDefinition :=
  { key := match definition.property "key" with
      | some (.str key) => key
      | _               => ""
    details := (definition.property "details").getD .null }

@[simp] theorem IMReactionDefinition.ofJson_toJson (definition : IMReactionDefinition) :
    IMReactionDefinition.ofJson definition.toJson = definition := by
  simp [ofJson, toJson, Json.property]

/-- `Number(row.metadata.reactionMaxSelected ?? 1)`, of a number as `_replaceReactions` writes it. -/
def storedMaxSelected (metadata : JsonObject) : Nat :=
  match Json.property (.obj metadata) "reactionMaxSelected" with
  | some (.num value) => value.num.toNat
  | _                 => 1

def IMMessageReactionRow.summary (row : IMMessageReactionRow) : IMReactionSummary :=
  { key := row.nativeReactionKey, count := row.count, selected := row.selected, selectedOrder := row.selectedOrder,
    recentActors := row.recentActors }

/-- The `reactionContext` of `hydrateMessage`; the rows stand in the order of their ids. -/
def hydrateReactionContext (reactions : Table IMMessageReactionRow) (row : IMMessageRow) : Option IMReactionContext :=
  let rows := reactions.get (fun reaction => reaction.messageId = row.id)
  if rows.isEmpty then none
  else some
    { available := rows.map (fun reaction => IMReactionDefinition.ofJson reaction.definition)
      reactions := (rows.filter (fun reaction => 0 < reaction.count ∨ reaction.selected)).map IMMessageReactionRow.summary
      maxSelected := storedMaxSelected row.metadata }

def shownReactions (context : Option IMReactionContext) : List IMReactionSummary :=
  (context.map (fun context => context.reactions)).getD []

structure ReactionsKeyed (reactions : Table IMMessageReactionRow) : Prop where
  unique : ∀ r ∈ reactions.rows, ∀ r' ∈ reactions.rows, r.messageId = r'.messageId →
    r.nativeReactionKey = r'.nativeReactionKey → r = r'
  named : ∀ r ∈ reactions.rows, ∃ definition : IMReactionDefinition,
    r.definition = definition.toJson ∧ definition.key = r.nativeReactionKey

theorem reactionsKeyed_empty : ReactionsKeyed Table.empty where
  unique := fun _ h => by cases h
  named := fun _ h => by cases h

/-! ## The definitions of a context -/

section Context

variable {context : IMReactionContext}

def IMReactionContext.Distinct (context : IMReactionContext) : Prop :=
  context.reactions.Pairwise (fun a b => a.key ≠ b.key)

theorem get_summaries (hd : context.Distinct) {k : String} {s : IMReactionSummary} :
    Maps.get context.summaries k = some s ↔
      s ∈ context.reactions ∧ s.key = k ∧ (0 < s.count ∨ s.selected = true ∨ s.recentActors ≠ []) := by
  unfold IMReactionContext.summaries
  have hdistinct : Maps.Distinct ((context.reactions.filter (fun r => 0 < r.count ∨ r.selected ∨ r.recentActors ≠ [])).map
      (fun r => (r.key, r))) := pairwise_map.2 (hd.filter _)
  rw [get_ofList_of_distinct hdistinct]
  constructor
  · intro h
    obtain ⟨r, hr, he⟩ := mem_map.1 (mem_of_get h)
    cases he
    exact ⟨(mem_filter.1 hr).1, rfl, by simpa using (mem_filter.1 hr).2⟩
  · rintro ⟨hs, rfl, hshown⟩
    exact get_of_mem hdistinct (mem_map.2 ⟨s, mem_filter.2 ⟨hs, by simpa using hshown⟩, rfl⟩)

def NamedDefinitions (definitions : List (String × Json)) : Prop :=
  ∀ e ∈ definitions, ∃ definition : IMReactionDefinition, e.2 = definition.toJson ∧ definition.key = e.1

variable {existing : List IMMessageReactionRow}

structure Collected (context : IMReactionContext) (existing : List IMMessageReactionRow)
    (definitions : List (String × Json)) : Prop where
  distinct : Maps.Distinct definitions
  named : NamedDefinitions definitions
  has : ∀ k, Maps.has definitions k = true ↔ Maps.has context.summaries k = true ∧
    ((∃ d ∈ context.available, d.key = k) ∨ ∃ row ∈ existing, row.nativeReactionKey = k)

theorem NamedDefinitions.set {definitions : List (String × Json)} (h : NamedDefinitions definitions)
    (definition : IMReactionDefinition) : NamedDefinitions (Maps.set definitions definition.key definition.toJson) := by
  intro e he
  rcases mem_set_imp he with rfl | he
  · exact ⟨definition, rfl, rfl⟩
  · exact h e he

theorem collected_available (context : IMReactionContext) : Collected context []
    (Maps.ofList ((context.available.filter (fun d => Maps.has context.summaries d.key)).map (fun d => (d.key, d.toJson)))) where
  distinct := distinct_ofList _
  named := fun e he => by
    obtain ⟨d, _, rfl⟩ := mem_map.1 (mem_of_mem_ofList he)
    exact ⟨d, rfl, rfl⟩
  has := fun k => by
    rw [has_eq_isSome, get_ofList, ← has_eq_isSome, has_iff]
    constructor
    · rintro ⟨e, he, hk⟩
      obtain ⟨d, hd, rfl⟩ := mem_map.1 (mem_reverse.1 he)
      obtain ⟨hd, hshown⟩ := mem_filter.1 hd
      cases hk
      exact ⟨hshown, Or.inl ⟨d, hd, rfl⟩⟩
    · rintro ⟨hshown, ⟨d, hd, rfl⟩ | ⟨_, hrow, _⟩⟩
      · exact ⟨_, mem_reverse.2 (mem_map.2 ⟨d, mem_filter.2 ⟨hd, hshown⟩, rfl⟩), rfl⟩
      · cases hrow

theorem Collected.row {definitions : List (String × Json)} (h : Collected context existing definitions)
    {row : IMMessageReactionRow} {definition : IMReactionDefinition} (hrow : row.definition = definition.toJson)
    (hkey : definition.key = row.nativeReactionKey) :
    Collected context (existing ++ [row])
      (if !Maps.has definitions row.nativeReactionKey && Maps.has context.summaries row.nativeReactionKey
          && isRecord row.definition then Maps.set definitions row.nativeReactionKey row.definition
      else definitions) := by
  have hrecord : isRecord row.definition = true := by rw [hrow]; rfl
  have hrows : ∀ k, (∃ r ∈ existing ++ [row], r.nativeReactionKey = k) ↔
      (∃ r ∈ existing, r.nativeReactionKey = k) ∨ row.nativeReactionKey = k := fun k => by simp [or_and_right, exists_or]
  by_cases hadd : Maps.has definitions row.nativeReactionKey = false ∧
      Maps.has context.summaries row.nativeReactionKey = true
  · rw [if_pos (by simp [hadd.1, hadd.2, hrecord])]
    refine ⟨h.distinct.set _ _, ?_, fun k => ?_⟩
    · rw [hrow, ← hkey]
      exact h.named.set definition
    · rw [has_eq_isSome, get_set, hrows]
      by_cases hk : k = row.nativeReactionKey
      · subst hk
        simp [hadd.2]
      · rw [if_neg hk, ← has_eq_isSome, h.has]
        simp [Ne.symm hk]
  · rw [if_neg (fun hc => hadd (by simpa [hrecord] using hc))]
    refine ⟨h.distinct, h.named, fun k => ?_⟩
    rw [hrows, h.has]
    constructor
    · rintro ⟨hshown, hknown⟩
      exact ⟨hshown, hknown.imp id Or.inl⟩
    · rintro ⟨hshown, hknown | hknown | rfl⟩
      · exact ⟨hshown, Or.inl hknown⟩
      · exact ⟨hshown, Or.inr hknown⟩
      · -- the key is shown, so the row was passed over because it has a definition already
        have hhas : Maps.has definitions row.nativeReactionKey = true := by
          by_contra hno
          exact hadd ⟨by simpa using hno, hshown⟩
        exact (h.has _).1 hhas

theorem Collected.fold : ∀ (rows existing : List IMMessageReactionRow) (definitions : List (String × Json)),
    Collected context existing definitions →
    (∀ row ∈ rows, ∃ definition : IMReactionDefinition,
      row.definition = definition.toJson ∧ definition.key = row.nativeReactionKey) →
    Collected context (existing ++ rows) (rows.foldl (fun definitions row =>
      if !Maps.has definitions row.nativeReactionKey && Maps.has context.summaries row.nativeReactionKey
          && isRecord row.definition then Maps.set definitions row.nativeReactionKey row.definition
      else definitions) definitions)
  | [], existing, _, h, _ => by
    rw [append_nil]
    exact h
  | row :: rows, existing, definitions, h, hnamed => by
    obtain ⟨definition, hrow, hkey⟩ := hnamed row mem_cons_self
    have := Collected.fold rows (existing ++ [row]) _ (h.row hrow hkey)
      (fun r hr => hnamed r (mem_cons_of_mem _ hr))
    rw [append_assoc] at this
    exact this

theorem collected_definitions (hnamed : ∀ row ∈ existing, ∃ definition : IMReactionDefinition,
      row.definition = definition.toJson ∧ definition.key = row.nativeReactionKey) :
    Collected context existing (context.definitions existing) :=
  Collected.fold existing [] _ (collected_available context) hnamed

end Context

/-! ## The rows a context leaves -/

section Rows

variable {messageId : Nat} {summaries : List (String × IMReactionSummary)}

/-- The upserts of `_replaceReactions`, one for each definition. -/
def upsertReactions (messageId : Nat) (summaries : List (String × IMReactionSummary)) (definitions : List (String × Json))
    (reactions : Table IMMessageReactionRow) : Table IMMessageReactionRow :=
  definitions.foldl (fun reactions d =>
    reactions.upsert (isReaction messageId d.1) (fun row => reactionRow messageId summaries d.1 d.2 row.id)
      (fun _ => rfl) (reactionRow messageId summaries d.1 d.2) (fun _ => rfl)) reactions

theorem isReaction_iff {key : String} {row : IMMessageReactionRow} :
    isReaction messageId key row = true ↔ row.messageId = messageId ∧ row.nativeReactionKey = key := by
  simp [isReaction]

variable {r : IMMessageReactionRow}

theorem mem_upsertReactions_imp : ∀ (definitions : List (String × Json))
    {reactions : Table IMMessageReactionRow}, r ∈ (upsertReactions messageId summaries definitions reactions).rows →
    (r ∈ reactions.rows ∧ ∀ e ∈ definitions, isReaction messageId e.1 r = false) ∨
      ∃ e ∈ definitions, ∃ n, r = reactionRow messageId summaries e.1 e.2 n
  | [],               _,         h => Or.inl ⟨h, fun _ he => by cases he⟩
  | e :: definitions, reactions, h => by
    rcases mem_upsertReactions_imp definitions h with ⟨hr, hnot⟩ | ⟨e', he', hr⟩
    · rcases Table.mem_upsert_imp (fun _ => rfl) hr with ⟨hr, hother⟩ | hr
      · exact Or.inl ⟨hr, forall_mem_cons.2 ⟨hother, hnot⟩⟩
      · exact Or.inr ⟨e, mem_cons_self, hr⟩
    · exact Or.inr ⟨e', mem_cons_of_mem _ he', hr⟩

theorem mem_upsertReactions_of_other : ∀ (definitions : List (String × Json))
    {reactions : Table IMMessageReactionRow}, r ∈ reactions.rows →
    (∀ e ∈ definitions, isReaction messageId e.1 r = false) →
    r ∈ (upsertReactions messageId summaries definitions reactions).rows
  | [],               _,         h, _ => h
  | e :: definitions, _,         h, hnot =>
    mem_upsertReactions_of_other definitions
      (Table.mem_upsert_of_other h (hnot e mem_cons_self)) (fun e' he' => hnot e' (mem_cons_of_mem _ he'))

theorem exists_mem_upsertReactions {key : String} {definition : Json} : ∀ (definitions : List (String × Json))
    {reactions : Table IMMessageReactionRow}, Maps.Distinct definitions → (key, definition) ∈ definitions →
    ∃ n, reactionRow messageId summaries key definition n ∈
      (upsertReactions messageId summaries definitions reactions).rows
  | [],               _,         _, h => by cases h
  | _ :: definitions, reactions, hd, h => by
    rcases mem_cons.1 h with rfl | h
    · have hwritten : ∃ n, reactionRow messageId summaries key definition n ∈
          (reactions.upsert (isReaction messageId key) (fun row => reactionRow messageId summaries key definition row.id)
            (fun _ => rfl) (reactionRow messageId summaries key definition) (fun _ => rfl)).rows :=
        Table.exists_mem_upsert (fun _ => rfl)
      obtain ⟨n, hn⟩ := hwritten
      refine ⟨n, mem_upsertReactions_of_other definitions hn (fun e he => ?_)⟩
      rw [Bool.eq_false_iff]
      intro hc
      exact rel_of_pairwise_cons hd he (isReaction_iff.1 hc).2
    · exact exists_mem_upsertReactions definitions hd.of_cons h

def OneEach (reactions : Table IMMessageReactionRow) : Prop :=
  ∀ r ∈ reactions.rows, ∀ r' ∈ reactions.rows, r.messageId = r'.messageId →
    r.nativeReactionKey = r'.nativeReactionKey → r = r'

theorem OneEach.upsertReactions : ∀ (definitions : List (String × Json)) {reactions : Table IMMessageReactionRow},
    OneEach reactions → OneEach (upsertReactions messageId summaries definitions reactions)
  | [],               _,         h => h
  | e :: definitions, reactions, h => by
    refine OneEach.upsertReactions definitions (fun r hr r' hr' hm hk => ?_)
    have hiff : isReaction messageId e.1 r = isReaction messageId e.1 r' := by
      rw [Bool.eq_iff_iff, isReaction_iff, isReaction_iff, hm, hk]
    by_cases hp : isReaction messageId e.1 r = true
    · refine Table.upsert_unique (fun a ha a' ha' hpa hpa' => ?_) r hr r' hr' hp (hiff ▸ hp)
      exact h a ha a' ha' ((isReaction_iff.1 hpa).1.trans (isReaction_iff.1 hpa').1.symm)
        ((isReaction_iff.1 hpa).2.trans (isReaction_iff.1 hpa').2.symm)
    · have hmade : ∀ x, isReaction messageId e.1 x ≠ true →
          x ∈ (reactions.upsert (isReaction messageId e.1) (fun row => reactionRow messageId summaries e.1 e.2 row.id)
            (fun _ => rfl) (reactionRow messageId summaries e.1 e.2) (fun _ => rfl)).rows → x ∈ reactions.rows := by
        intro x hx hmem
        rcases Table.mem_upsert_imp (fun _ => rfl) hmem with ⟨hold, _⟩ | ⟨n, rfl⟩
        · exact hold
        · exact absurd (isReaction_iff.2 ⟨rfl, rfl⟩) hx
      exact h r (hmade r hp hr) r' (hmade r' (hiff ▸ hp) hr') hm hk

variable {t : MessageTables} {context : IMReactionContext}

/-- The rows of the message when `_replaceReactions` starts. -/
def MessageTables.reactionsOf (t : MessageTables) (messageId : Nat) : List IMMessageReactionRow :=
  t.reactions.get (fun row => row.messageId = messageId)

theorem mem_reactionsOf :
    r ∈ t.reactionsOf messageId ↔ r ∈ t.reactions.rows ∧ r.messageId = messageId := by
  simp [MessageTables.reactionsOf, Table.get]

theorem ReactionsKeyed.collected (h : ReactionsKeyed t.reactions) :
    Collected context (t.reactionsOf messageId) (context.definitions (t.reactionsOf messageId)) :=
  collected_definitions (fun row hrow => h.named row (mem_reactionsOf.1 hrow).1)

/-- **The rows of a message after its reactions are replaced** are those of the definitions. -/
theorem mem_replaceReactions (hr : r ∈ (replaceReactions t messageId (some context)).reactions.rows) :
    (r ∈ t.reactions.rows ∧ r.messageId ≠ messageId) ∨
      ∃ e ∈ context.definitions (t.reactionsOf messageId), ∃ n, r = reactionRow messageId context.summaries e.1 e.2 n := by
  rcases mem_upsertReactions_imp _ hr with ⟨hkept, hnot⟩ | hwritten
  · refine Or.inl ⟨(Table.mem_remove.1 hkept).1, fun hm => ?_⟩
    have hhas := (Table.mem_remove.1 hkept).2
    have hdef : Maps.has (context.definitions (t.reactionsOf messageId)) r.nativeReactionKey = true := by
      by_contra hno
      rw [Bool.not_eq_true] at hno
      rw [decide_eq_false_iff_not] at hhas
      exact hhas ⟨hm, by rw [Bool.not_eq_true']; exact hno⟩
    obtain ⟨e, he, hk⟩ := has_iff.1 hdef
    have := hnot e he
    rw [Bool.eq_false_iff] at this
    exact this (isReaction_iff.2 ⟨hm, hk.symm⟩)
  · exact Or.inr hwritten

theorem replaceReactions_keyed (h : ReactionsKeyed t.reactions) (messageId : Nat) :
    ∀ context, ReactionsKeyed (replaceReactions t messageId context).reactions
  | none         => h
  | some context => by
    refine ⟨?_, fun r hr => ?_⟩
    · exact OneEach.upsertReactions _ (fun r hr r' hr' =>
        h.unique r (Table.mem_remove.1 hr).1 r' (Table.mem_remove.1 hr').1)
    · rcases mem_replaceReactions hr with ⟨hold, _⟩ | ⟨e, he, n, rfl⟩
      · exact h.named r hold
      · exact h.collected.named e he

/-! ## Read back -/

def Defined (t : MessageTables) (messageId : Nat) (context : IMReactionContext) (k : String) : Prop :=
  (∃ d ∈ context.available, d.key = k) ∨ ∃ row ∈ t.reactionsOf messageId, row.nativeReactionKey = k

variable {reactions : Table IMMessageReactionRow} {s : IMReactionSummary} {row : IMMessageRow}

theorem mem_shownReactions :
    s ∈ shownReactions (hydrateReactionContext reactions row) ↔
      ∃ r ∈ reactions.rows, r.messageId = row.id ∧ (0 < r.count ∨ r.selected = true) ∧ r.summary = s := by
  unfold shownReactions hydrateReactionContext
  dsimp only
  split
  · rename_i hempty
    rw [List.isEmpty_iff, Table.get, List.filter_eq_nil_iff] at hempty
    refine ⟨fun h => (by cases h), ?_⟩
    rintro ⟨r, hr, hm, _⟩
    exact absurd (by simpa using hm) (hempty r hr)
  · simp [Table.get, and_assoc, and_left_comm]

theorem ReactionsKeyed.distinct (h : ReactionsKeyed reactions)
    (row : IMMessageRow) : (shownReactions (hydrateReactionContext reactions row)).Pairwise (fun a b => a.key ≠ b.key) := by
  unfold shownReactions hydrateReactionContext
  dsimp only
  split
  · exact List.Pairwise.nil
  · refine pairwise_map.2 (List.Pairwise.filter _ ?_)
    have hids := reactions.idsIncrease.filter (fun reaction => reaction.messageId = row.id)
    refine hids.imp_of_mem (fun {a b} ha hb hlt hkey => ?_)
    have hma : a.messageId = row.id := by simpa using (mem_filter.1 ha).2
    have hmb : b.messageId = row.id := by simpa using (mem_filter.1 hb).2
    have hab : a = b := h.unique a (mem_filter.1 ha).1 b (mem_filter.1 hb).1 (hma.trans hmb.symm) hkey
    rw [hab] at hlt
    exact absurd hlt (Nat.lt_irrefl _)

theorem ReactionsKeyed.available (h : ReactionsKeyed reactions)
    {context : IMReactionContext} (hc : hydrateReactionContext reactions row = some context)
    (hs : s ∈ context.reactions) : ∃ d ∈ context.available, d.key = s.key := by
  have hshown : s ∈ shownReactions (hydrateReactionContext reactions row) := by
    rw [hc]
    exact hs
  obtain ⟨r, hr, hm, _, rfl⟩ := mem_shownReactions.1 hshown
  obtain ⟨d, hd, hkey⟩ := h.named r hr
  unfold hydrateReactionContext at hc
  dsimp only at hc
  split at hc
  · cases hc
  · cases hc
    refine ⟨d, mem_map.2 ⟨r, mem_filter.2 ⟨hr, decide_eq_true hm⟩, ?_⟩, hkey⟩
    rw [hd, IMReactionDefinition.ofJson_toJson]

theorem summary_reactionRow {k : String} {definition : Json} {n : Nat}
    (h : Maps.get summaries k = some s) (hk : s.key = k) :
    (reactionRow messageId summaries k definition n).summary = s := by
  subst hk
  simp [reactionRow, IMMessageReactionRow.summary, h]

/-- **A stored context is read back**: the summaries that have a count or are selected, and have a definition. -/
theorem mem_shown_replaceReactions (h : ReactionsKeyed t.reactions) (hd : context.Distinct) :
    s ∈ shownReactions (hydrateReactionContext (replaceReactions t row.id (some context)).reactions row) ↔
      s ∈ context.reactions ∧ (0 < s.count ∨ s.selected = true) ∧ Defined t row.id context s.key := by
  have hcollected : Collected context (t.reactionsOf row.id) (context.definitions (t.reactionsOf row.id)) := h.collected
  rw [mem_shownReactions]
  constructor
  · rintro ⟨r, hr, hm, hshown, rfl⟩
    rcases mem_replaceReactions hr with ⟨_, hne⟩ | ⟨e, he, n, rfl⟩
    · exact absurd hm hne
    · have hhas := (hcollected.has e.1).1 (has_iff.2 ⟨e, he, rfl⟩)
      obtain ⟨s, hs⟩ := Option.isSome_iff_exists.1 (has_eq_isSome context.summaries e.1 ▸ hhas.1)
      have hmem := (get_summaries hd).1 hs
      have hsummary : (reactionRow row.id context.summaries e.1 e.2 n).summary = s := summary_reactionRow hs hmem.2.1
      have hcount : (reactionRow row.id context.summaries e.1 e.2 n).count = s.count := by rw [← hsummary]; rfl
      have hsel : (reactionRow row.id context.summaries e.1 e.2 n).selected = s.selected := by rw [← hsummary]; rfl
      rw [hcount, hsel] at hshown
      rw [hsummary, hmem.2.1]
      exact ⟨hmem.1, hshown, hhas.2⟩
  · rintro ⟨hs, hshown, hdefined⟩
    have hget : Maps.get context.summaries s.key = some s :=
      (get_summaries hd).2 ⟨hs, rfl, hshown.imp_right Or.inl⟩
    have hhas : Maps.has (context.definitions (t.reactionsOf row.id)) s.key = true :=
      (hcollected.has s.key).2 ⟨by rw [has_eq_isSome, hget]; rfl, hdefined⟩
    obtain ⟨e, he, hk⟩ := has_iff.1 hhas
    have hwritten : ∃ n, reactionRow row.id context.summaries e.1 e.2 n ∈
        (replaceReactions t row.id (some context)).reactions.rows :=
      exists_mem_upsertReactions _ hcollected.distinct he
    obtain ⟨n, hn⟩ := hwritten
    have hsummary : (reactionRow row.id context.summaries e.1 e.2 n).summary = s := summary_reactionRow (hk ▸ hget) hk.symm
    refine ⟨_, hn, rfl, ?_, hsummary⟩
    rw [← hsummary] at hshown
    exact hshown

end Rows

end Crossgram
