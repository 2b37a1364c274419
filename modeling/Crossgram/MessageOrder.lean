import Mathlib.Data.Int.Interval
import Crossgram.MessageIdentity
/-!
# MessageOrder — native sequence order is id order

A part with a native sequence is placed strictly between the ids of the nearest lower and the nearest higher sequence of
its conversation.  That keeps the whole conversation in order (`InOrder`) as long as no stored sequence is rewritten and
no search is relaxed, and a search is relaxed only when too few ids are free between the two neighbours.
-/
namespace Crossgram

open List

def sequenced (conversationId : Nat) (rows : List TlMessagePartRow) : List (Nat × Int) :=
  rows.filterMap (fun row =>
    if row.conversationId = conversationId then row.nativeSequence.map (fun n => (n, row.tlMessageId)) else none)

def InOrder (l : List (Nat × Int)) : Prop := ∀ x ∈ l, ∀ y ∈ l, x.1 < y.1 → x.2 < y.2

variable {conversationId : Nat}

theorem mem_sequenced {rows : List TlMessagePartRow} {x : Nat × Int} :
    x ∈ sequenced conversationId rows ↔ ∃ row ∈ rows, row.conversationId = conversationId ∧
      row.nativeSequence = some x.1 ∧ row.tlMessageId = x.2 := by
  simp only [sequenced, mem_filterMap]
  constructor
  · rintro ⟨row, hrow, h⟩
    split at h
    · rename_i hc
      obtain ⟨n, hn, rfl⟩ := Option.map_eq_some_iff.1 h
      exact ⟨row, hrow, hc, hn, rfl⟩
    · cases h
  · rintro ⟨row, hrow, hc, hn, hid⟩
    exact ⟨row, hrow, by rw [if_pos hc, hn, hid]; rfl⟩

/-! ## The neighbours of a key -/

section Neighbours

variable {κ : Type} [LinearOrder κ] {rows : List TlMessagePartRow} {keyOf : TlMessagePartRow → κ} {key : κ}

variable {row : TlMessagePartRow}

theorem head_window {r : TlMessagePartRow → TlMessagePartRow → Prop} [DecidableRel r] [Std.Total r]
    [IsTrans TlMessagePartRow r] {l : List TlMessagePartRow} (hrow : row ∈ l) :
    ∃ first ∈ l, (Windows.window r 1 l).head? = some first ∧ (row = first ∨ r first row) := by
  cases hw : Windows.window r 1 l with
  | nil => exact absurd ((Windows.window_eq_nil (by omega)).1 hw) (ne_nil_of_mem hrow)
  | cons first rest =>
    have hlen := Windows.length_window_le (r := r) 1 l
    rw [hw, length_cons] at hlen
    have hrest : rest = [] := eq_nil_of_length_eq_zero (by omega)
    refine ⟨first, Windows.mem_of_mem_window (r := r) (by rw [hw]; exact mem_cons_self), rfl, ?_⟩
    by_cases hin : row ∈ Windows.window r 1 l
    · rw [hw, hrest, mem_singleton] at hin
      exact Or.inl hin
    · exact Or.inr ((Windows.window_left_out hrow hin).2 first (by rw [hw]; exact mem_cons_self))

/-- **Every row below the key is at or below the lower neighbour.** -/
theorem neighbourBounds_lower (hord : ∀ a ∈ rows, ∀ b ∈ rows, keyOf a < keyOf b → a.tlMessageId < b.tlMessageId)
    (hrow : row ∈ rows) (hk : keyOf row < key) :
    ∃ lower, (neighbourBounds rows keyOf (fun _ => true) key).lowerExclusive = some lower ∧ row.tlMessageId ≤ lower := by
  have : Std.Total (fun a b : TlMessagePartRow => keyOf b ≤ keyOf a) := ⟨fun a b => le_total _ _⟩
  have : IsTrans TlMessagePartRow (fun a b => keyOf b ≤ keyOf a) := ⟨fun a b c h h' => le_trans h' h⟩
  have hin : row ∈ rows.filter (fun row => keyOf row < key) := mem_filter.2 ⟨hrow, decide_eq_true hk⟩
  obtain ⟨previous, hprev, hhead, hle⟩ := head_window (r := fun a b => keyOf b ≤ keyOf a) hin
  have hmem := (mem_filter.1 hprev).1
  have hid : previous.tlMessageId ∈ (rows.filter (fun other => keyOf other = keyOf previous)).map
      (fun part => part.tlMessageId) := mem_map_of_mem (mem_filter.2 ⟨hmem, by simp⟩)
  cases hmax : ((rows.filter (fun other => keyOf other = keyOf previous)).map (fun part => part.tlMessageId)).max? with
  | none => rw [max?_eq_none_iff.1 hmax] at hid; cases hid
  | some lower =>
    obtain ⟨-, hmaxle⟩ := max?_eq_some_iff.1 hmax
    refine ⟨lower, by simp [neighbourBounds, hhead, hmax], ?_⟩
    have hkey : keyOf row ≤ keyOf previous := by
      rcases hle with rfl | h
      · exact le_refl _
      · exact h
    rcases lt_or_eq_of_le hkey with hlt | heq
    · exact le_trans (le_of_lt (hord row hrow previous hmem hlt)) (hmaxle _ hid)
    · exact hmaxle _ (mem_map_of_mem (mem_filter.2 ⟨hrow, by simp [heq]⟩))

/-- **Every row above the key is at or above the upper neighbour.** -/
theorem neighbourBounds_upper (hord : ∀ a ∈ rows, ∀ b ∈ rows, keyOf a < keyOf b → a.tlMessageId < b.tlMessageId)
    (hrow : row ∈ rows) (hk : key < keyOf row) :
    ∃ upper, (neighbourBounds rows keyOf (fun _ => true) key).upperExclusive = some upper ∧ upper ≤ row.tlMessageId := by
  have : Std.Total (fun a b : TlMessagePartRow => keyOf a ≤ keyOf b) := ⟨fun a b => le_total _ _⟩
  have : IsTrans TlMessagePartRow (fun a b => keyOf a ≤ keyOf b) := ⟨fun a b c h h' => le_trans h h'⟩
  have hin : row ∈ rows.filter (fun row => key < keyOf row) := mem_filter.2 ⟨hrow, decide_eq_true hk⟩
  obtain ⟨next, hnext, hhead, hle⟩ := head_window (r := fun a b => keyOf a ≤ keyOf b) hin
  have hmem := (mem_filter.1 hnext).1
  have hid : next.tlMessageId ∈ (rows.filter (fun other => keyOf other = keyOf next)).map
      (fun part => part.tlMessageId) := mem_map_of_mem (mem_filter.2 ⟨hmem, by simp⟩)
  cases hmin : ((rows.filter (fun other => keyOf other = keyOf next)).map (fun part => part.tlMessageId)).min? with
  | none => rw [min?_eq_none_iff.1 hmin] at hid; cases hid
  | some upper =>
    obtain ⟨-, hminle⟩ := min?_eq_some_iff.1 hmin
    refine ⟨upper, by simp [neighbourBounds, hhead, hmin], ?_⟩
    have hkey : keyOf next ≤ keyOf row := by
      rcases hle with rfl | h
      · exact le_refl _
      · exact h
    rcases lt_or_eq_of_le hkey with hlt | heq
    · exact le_trans (hminle _ hid) (le_of_lt (hord next hmem row hrow hlt))
    · exact hminle _ (mem_map_of_mem (mem_filter.2 ⟨hrow, by simp [heq]⟩))

end Neighbours

variable {parts : List TlMessagePartRow}

theorem keys_inOrder (h : InOrder (sequenced conversationId parts)) :
    ∀ a ∈ parts.filter (fun part => part.conversationId = conversationId ∧ part.nativeSequence.isSome),
      ∀ b ∈ parts.filter (fun part => part.conversationId = conversationId ∧ part.nativeSequence.isSome),
        a.nativeSequence.getD 0 < b.nativeSequence.getD 0 → a.tlMessageId < b.tlMessageId := by
  intro a ha b hb hlt
  simp only [mem_filter, decide_eq_true_eq, Option.isSome_iff_exists] at ha hb
  obtain ⟨ha, hac, m, hm⟩ := ha
  obtain ⟨hb, hbc, n, hn⟩ := hb
  rw [hm, hn] at hlt
  exact h (m, a.tlMessageId) (mem_sequenced.2 ⟨a, ha, hac, hm, rfl⟩) (n, b.tlMessageId)
    (mem_sequenced.2 ⟨b, hb, hbc, hn, rfl⟩) hlt

/-- **An id between the neighbours of its sequence is in order with every part of the conversation.** -/
theorem between_neighbours {conversationId nativeSequence : Nat}
    (h : InOrder (sequenced conversationId parts)) {n : Int}
    (hn : (nativeSequenceBounds parts conversationId nativeSequence).Admits n) :
    ∀ x ∈ sequenced conversationId parts, (x.1 < nativeSequence → x.2 < n) ∧ (nativeSequence < x.1 → n < x.2) := by
  intro x hx
  obtain ⟨row, hrow, hc, hs, hid⟩ := mem_sequenced.1 hx
  have hmem : row ∈ parts.filter (fun part => part.conversationId = conversationId ∧ part.nativeSequence.isSome) :=
    mem_filter.2 ⟨hrow, by simp [hc, hs]⟩
  have hkey : row.nativeSequence.getD 0 = x.1 := by rw [hs]; rfl
  refine ⟨fun hlt => ?_, fun hlt => ?_⟩
  · rw [← hkey] at hlt
    obtain ⟨lower, hl, hle⟩ := neighbourBounds_lower (keys_inOrder h) hmem hlt
    have := hn.1 lower (by rw [nativeSequenceBounds, hl]; rfl)
    omega
  · rw [← hkey] at hlt
    obtain ⟨upper, hu, hle⟩ := neighbourBounds_upper (keys_inOrder h) hmem hlt
    have := hn.2 upper (by rw [nativeSequenceBounds, hu]; rfl)
    omega

/-! ## The steps of `_ensureProjection` -/

/-- An event after which a conversation may be out of order. -/
def PartEvent.Disorders (conversationId : Nat) : PartEvent → Prop
  | .resequenced part _ => part.conversationId = conversationId
  | .allocated conversation nativeSequence request parts =>
    conversation = conversationId ∧ nativeSequence.isSome ∧ request.NeedsRelaxedPass parts

theorem sequenced_set {parts : Table TlMessagePartRow} {which : TlMessagePartRow → Bool}
    {f : TlMessagePartRow → TlMessagePartRow} (h : ∀ row, Row.id (f row) = Row.id row)
    (hf : ∀ row ∈ parts.rows, which row = true → (f row).conversationId = row.conversationId ∧
      (f row).tlMessageId = row.tlMessageId ∧
      (row.conversationId = conversationId → (f row).nativeSequence = row.nativeSequence)) :
    sequenced conversationId (parts.set which f h).rows = sequenced conversationId parts.rows := by
  unfold sequenced Table.set
  rw [filterMap_map]
  refine filterMap_congr (fun row hrow => ?_)
  simp only [Function.comp_apply]
  by_cases hw : which row = true
  · obtain ⟨hc, hid, hs⟩ := hf row hrow hw
    rw [if_pos hw, hc, hid]
    by_cases hrc : row.conversationId = conversationId
    · rw [hs hrc]
    · rw [if_neg hrc, if_neg hrc]
  · rw [if_neg hw]

theorem InOrder.subset {l l' : List (Nat × Int)} (h : InOrder l) (hs : l' ⊆ l) : InOrder l' :=
  fun x hx y hy => h x (hs hx) y (hs hy)

namespace Projecting

variable {p : Projecting} {conversationId : Nat}

theorem sequenced_retire (t : MessageTables) (existing : List TlMessagePartRow) :
    sequenced conversationId (p.retire t existing).parts.rows ⊆ sequenced conversationId t.parts.rows :=
  (filter_sublist.filterMap _).subset

theorem sequenced_resequence {t : MessageTables} {staying : List TlMessagePartRow} (hsub : ∀ part ∈ staying, part ∈ t.parts.rows)
    (hclean : ∀ e ∈ (p.resequence t staying).partEvents, ¬e.Disorders conversationId) :
    sequenced conversationId (p.resequence t staying).parts.rows = sequenced conversationId t.parts.rows := by
  refine sequenced_set ?_ (fun row hrow hw => ⟨rfl, rfl, fun hc => ?_⟩)
  · exact fun _ => rfl
  simp only [among, any_eq_true, decide_eq_true_eq] at hw
  obtain ⟨part, hpart, hid⟩ := hw
  obtain rfl := Table.eq_of_id (hsub part hpart) hrow hid
  show p.nativeSequence.or part.nativeSequence = part.nativeSequence
  cases hs : p.nativeSequence with
  | none => rfl
  | some n =>
    by_cases heq : part.nativeSequence = some n
    · rw [heq]; rfl
    · refine absurd hc (hclean (.resequenced part n) (mem_append_right _ (mem_filterMap.2 ⟨part, hpart, ?_⟩)))
      simp [hs, heq]

variable {groupedId : Option String} {t t' : MessageTables}

theorem sequenced_regroup {existing staying : List TlMessagePartRow}
    (h : p.regroup t existing staying = .ok (t', groupedId)) :
    sequenced conversationId t'.parts.rows = sequenced conversationId t.parts.rows := by
  obtain ⟨counters, parts, rfl, rfl | ⟨g, rfl⟩⟩ := regroup_ok h
  · rfl
  · refine sequenced_set ?_ (fun _ _ _ => ⟨rfl, rfl, fun _ => rfl⟩)
    exact fun _ => rfl

theorem partEvents_regroup {existing staying : List TlMessagePartRow}
    (h : p.regroup t existing staying = .ok (t', groupedId)) : t'.partEvents = t.partEvents := by
  obtain ⟨counters, parts, rfl, rfl | ⟨g, rfl⟩⟩ := regroup_ok h <;> rfl

theorem sequenced_refresh (t : MessageTables) (groupedId : Option String) :
    sequenced conversationId (p.refresh t groupedId).parts.rows = sequenced conversationId t.parts.rows := by
  refine sequenced_set ?_ (fun _ _ _ => ⟨rfl, rfl, fun _ => rfl⟩)
  exact fun _ => rfl

theorem bounds_of_sequence {parts : List TlMessagePartRow} {nativeSequence : Nat}
    (h : p.nativeSequence = some nativeSequence) :
    p.bounds parts = nativeSequenceBounds parts p.conversationId nativeSequence := by
  unfold bounds
  rw [h]

/-- **New parts keep the order**, unless the search was relaxed. -/
theorem inOrder_addParts {cache cache' : List (String × Int)} {staying : List TlMessagePartRow}
    {ids : List Int} (hplaced : Placed (placings t.parts))
    (hcount : (ordinalsOf (placings t.parts) p.messageId).length = staying.length)
    (h : p.addParts t cache staying groupedId = .ok ((t', cache'), ids))
    (hclean : ∀ e ∈ t'.partEvents, ¬e.Disorders conversationId) (hord : InOrder (sequenced conversationId t.parts.rows)) :
    InOrder (sequenced conversationId t'.parts.rows) := by
  obtain ⟨hrows, -⟩ := rows_of_addParts hplaced hcount h
  rcases addParts_ok h with ⟨-, rfl, -, -⟩ | ⟨-, preferredId, epochs, -, halloc, rfl⟩
  · exact hord
  · have hnew : ∀ x ∈ sequenced conversationId (newParts p groupedId staying.length ids t.parts.nextId),
        p.conversationId = conversationId ∧ p.nativeSequence = some x.1 ∧ x.2 ∈ ids := by
      intro x hx
      obtain ⟨row, hrow, hc, hs, hid⟩ := mem_sequenced.1 hx
      obtain ⟨n, hn, ordinal', id', -, rfl⟩ := mem_newParts hrow
      exact ⟨hc, hs, hid ▸ hn⟩
    have hbetween : ∀ x ∈ sequenced conversationId (newParts p groupedId staying.length ids t.parts.nextId),
        ∀ y ∈ sequenced conversationId t.parts.rows, (y.1 < x.1 → y.2 < x.2) ∧ (x.1 < y.1 → x.2 < y.2) := by
      intro x hx
      obtain ⟨rfl, hs, hin⟩ := hnew x hx
      have hstrict : ¬(p.request staying (p.bounds t.parts.rows) preferredId).NeedsRelaxedPass t.parts.rows := fun hneed =>
        hclean _ (mem_append_right _ (mem_singleton_self _)) ⟨rfl, by rw [hs]; rfl, hneed⟩
      have hadm := (SlotRequest.allocated halloc).admitted hstrict x.2 hin
      rw [show (p.request staying (p.bounds t.parts.rows) preferredId).bounds = p.bounds t.parts.rows from rfl,
        bounds_of_sequence hs] at hadm
      exact between_neighbours hord hadm
    rw [hrows]
    intro x hx y hy hlt
    rw [sequenced, filterMap_append] at hx hy
    rcases mem_append.1 hx with hx | hx
    · rcases mem_append.1 hy with hy | hy
      · exact hord x hx y hy hlt
      · exact (hbetween y hy x hx).1 hlt
    · rcases mem_append.1 hy with hy | hy
      · exact (hbetween x hx y hy).2 hlt
      · have := (hnew x hx).2.1.symm.trans (hnew y hy).2.1
        exact absurd (Option.some.inj this) (Nat.ne_of_lt hlt)

theorem staying_subset {t : MessageTables} : ∀ part ∈ p.staying (partsOf t.parts p.messageId),
    part ∈ (p.retire t (partsOf t.parts p.messageId)).parts.rows := by
  intro part hpart
  exact (mem_filter.1 ((rows_of_message_after_retire (p := p) t.parts).symm.subset hpart)).1

theorem staying_scope {existing : List TlMessagePartRow} : ∀ part ∈ p.staying existing, part.scope = p.scope := by
  intro part hpart
  unfold staying at hpart
  split at hpart
  · cases hpart
  · rename_i hstale
    have hmem := mem_of_mem_take hpart
    by_contra hne
    exact hstale (any_eq_true.2 ⟨part, hmem, by simp [isStale, hne]⟩)

end Projecting

/-! ## A relaxed search -/

def freeBetween (bounds : IdBounds) (scope : String) (parts : List TlMessagePartRow) : List Int :=
  (idsBetween 16 0x7fffffff).filter (fun n => bounds.Admits n ∧ ∀ part ∈ parts, part.scope = scope → part.tlMessageId ≠ n)

/-- **The strict pass falls short only for want of free ids.** -/
theorem SlotRequest.free_lt_count {q : SlotRequest} (h : q.NeedsRelaxedPass parts)
    (hex : ∀ n ∈ q.existingIds, ∃ part ∈ parts, part.scope = q.scope ∧ part.tlMessageId = n) :
    (freeBetween q.bounds q.scope parts).length < q.count := by
  have hsub : freeBetween q.bounds q.scope parts ⊆ q.collect parts q.bounds [] := by
    intro n hn
    simp only [freeBetween, mem_filter, mem_idsBetween, decide_eq_true_eq] at hn
    obtain ⟨⟨hlo, hhi⟩, hadm, hfree⟩ := hn
    refine collect_complete h.1 ⟨hlo, hhi, hadm, fun hin => ?_, hfree⟩
    obtain ⟨part, hpart, hs, heq⟩ := hex n hin
    exact hfree part hpart hs heq
  have hnodup : (freeBetween q.bounds q.scope parts).Nodup := (nodup_idsBetween _ _).filter _
  calc (freeBetween q.bounds q.scope parts).length ≤ (q.collect parts q.bounds []).length :=
        (subperm_of_subset hnodup hsub).length_le
    _ < q.count := h.1

/-- A relaxed search for a message with a sequence found its two neighbours too close. -/
def PartEvent.Justified : PartEvent → Prop
  | .allocated conversationId (some nativeSequence) request parts => request.NeedsRelaxedPass parts →
    (freeBetween (nativeSequenceBounds parts conversationId nativeSequence) request.scope parts).length < request.count
  | _ => True

theorem Projecting.justified_addParts {p : Projecting} {t t' : MessageTables} {cache cache' : List (String × Int)}
    {staying : List TlMessagePartRow} {groupedId : Option String} {ids : List Int}
    (hstaying : ∀ part ∈ staying, ∃ row ∈ t.parts.rows, row.scope = p.scope ∧ row.tlMessageId = part.tlMessageId)
    (h : p.addParts t cache staying groupedId = .ok ((t', cache'), ids)) :
    ∀ e ∈ t'.partEvents, e ∈ t.partEvents ∨ e.Justified := by
  rcases addParts_ok h with ⟨-, rfl, -, -⟩ | ⟨-, preferredId, epochs, -, -, rfl⟩
  · exact fun e he => Or.inl he
  · intro e he
    rcases mem_append.1 he with he | he
    · exact Or.inl he
    · right
      rw [mem_singleton.1 he]
      cases hs : p.nativeSequence with
      | none => trivial
      | some nativeSequence =>
        intro hneed
        rw [← bounds_of_sequence hs]
        have hlt := SlotRequest.free_lt_count hneed (fun n hn => by
          obtain ⟨part, hpart, rfl⟩ := mem_map.1 hn
          exact hstaying part hpart)
        exact hlt

/-! ## Runs -/

structure Orders (t t' : MessageTables) : Prop where
  placed : Placed (placings t'.parts)
  events : t.partEvents ⊆ t'.partEvents
  inOrder : ∀ conversationId, (∀ e ∈ t'.partEvents, ¬e.Disorders conversationId) →
    InOrder (sequenced conversationId t.parts.rows) → InOrder (sequenced conversationId t'.parts.rows)
  justified : ∀ e ∈ t'.partEvents, e ∈ t.partEvents ∨ e.Justified

theorem Orders.trans {t t' t'' : MessageTables} (h : Orders t t') (h' : Orders t' t'') : Orders t t'' where
  placed := h'.placed
  events := List.Subset.trans h.events h'.events
  inOrder := fun conversationId hclean hord =>
    h'.inOrder conversationId hclean (h.inOrder conversationId (fun e he => hclean e (h'.events he)) hord)
  justified := fun e he => by
    rcases h'.justified e he with he | he
    · exact h.justified e he
    · exact Or.inr he

theorem Projecting.orders {p : Projecting} {t t' : MessageTables} {cache cache' : List (String × Int)}
    {projected : Projected} (hplaced : Placed (placings t.parts))
    (h : p.ensureProjection t cache = .ok ((t', cache'), projected)) : Orders t t' := by
  obtain ⟨-, ⟨t₁, t₂, groupedId, hgroup, hadd, rfl⟩, -, -⟩ := steps h
  have hplac : placings t₁.parts = placings (p.retire t (partsOf t.parts p.messageId)).parts :=
    (placings_regroup hgroup).1.trans (placings_resequence _ _)
  have hplaced₁ : Placed (placings t₁.parts) := hplac ▸ placed_retire hplaced
  have hcount := ordinalsOf_retired t hplac
  have hevents₁ : t₁.partEvents = (p.resequence (p.retire t (partsOf t.parts p.messageId))
      (p.staying (partsOf t.parts p.messageId))).partEvents := partEvents_regroup hgroup
  have hevents₂ : t₁.partEvents ⊆ t₂.partEvents := by
    rcases addParts_ok hadd with ⟨-, rfl, -, -⟩ | ⟨-, preferredId, epochs, -, -, rfl⟩
    · exact List.Subset.refl _
    · exact subset_append_left _ _
  refine ⟨(placed_ensureProjection hplaced h).1, fun e he => hevents₂ (hevents₁ ▸ mem_append_left _ he),
    fun conversationId hclean hord => ?_, fun e he => ?_⟩
  · have hclean₁ : ∀ e ∈ (p.resequence (p.retire t (partsOf t.parts p.messageId))
        (p.staying (partsOf t.parts p.messageId))).partEvents, ¬e.Disorders conversationId :=
      fun e he => hclean e (hevents₂ (hevents₁ ▸ he))
    have hord₁ : InOrder (sequenced conversationId t₁.parts.rows) := by
      rw [sequenced_regroup hgroup, sequenced_resequence staying_subset hclean₁]
      exact hord.subset (sequenced_retire t _)
    rw [sequenced_refresh]
    exact inOrder_addParts hplaced₁ hcount hadd hclean hord₁
  · have hstaying : ∀ part ∈ p.staying (partsOf t.parts p.messageId),
        ∃ row ∈ t₁.parts.rows, row.scope = p.scope ∧ row.tlMessageId = part.tlMessageId := by
      intro part hpart
      have hmem : part.placing ∈ placings t₁.parts := hplac ▸ mem_map_of_mem (staying_subset part hpart)
      obtain ⟨row, hrow, heq⟩ := mem_map.1 hmem
      exact ⟨row, hrow, (congrArg PartPlacing.scope heq).trans (staying_scope part hpart),
        congrArg PartPlacing.tlMessageId heq⟩
    rcases justified_addParts hstaying hadd e he with he | he
    · rw [hevents₁] at he
      rcases mem_append.1 he with he | he
      · exact Or.inl he
      · obtain ⟨part, -, heq⟩ := mem_filterMap.1 he
        right
        split at heq
        · split at heq
          · cases heq
            trivial
          · cases heq
        · cases heq
    · exact Or.inr he

theorem orders_rule : ProjectionRule (fun t _ t' => Placed (placings t.parts) → Orders t t') where
  unchanged := fun hp he hplaced =>
    ⟨hp ▸ hplaced, he ▸ List.Subset.refl _, fun _ _ hord => hp ▸ hord, fun _ h => Or.inl (he ▸ h)⟩
  trans := fun h h' hplaced => (h hplaced).trans (h' (h hplaced).placed)
  kept := fun _ _ hplaced => ⟨hplaced, List.Subset.refl _, fun _ _ hord => hord, fun _ he => Or.inl he⟩
  projected := fun h _ _ _ _ hplaced => Projecting.orders hplaced h

/-- **Native order is id order.**  In a run in which no stored sequence of a conversation is rewritten and no search for
its sequences is relaxed, a lower sequence has a lower id; and a search is relaxed only when fewer ids are free between
the neighbours of its sequence than it needs. -/
theorem native_order_is_id_order (db : Database) (hplaced : Placed (placings db.tables.parts))
    (hevents : db.tables.partEvents = []) (ops : List (MessageReader × StoreOperation)) (conversationId : Nat)
    (hord : InOrder (sequenced conversationId db.tables.parts.rows)) :
    let now := (Runs.final MessageStore.step db ops).tables
    ((∀ e ∈ now.partEvents, ¬e.Disorders conversationId) →
      ∀ a ∈ now.parts.rows, ∀ b ∈ now.parts.rows, a.conversationId = conversationId → b.conversationId = conversationId →
        ∀ m n, a.nativeSequence = some m → b.nativeSequence = some n → m < n → a.tlMessageId < b.tlMessageId) ∧
    (∀ nativeSequence request parts,
      .allocated conversationId (some nativeSequence) request parts ∈ now.partEvents → request.NeedsRelaxedPass parts →
        (freeBetween (nativeSequenceBounds parts conversationId nativeSequence) request.scope parts).length
          < request.count) := by
  intro now
  have horders : Orders db.tables now := run_rule orders_rule ops db hplaced
  refine ⟨fun hclean a ha b hb hac hbc m n hm hn hlt => ?_, fun nativeSequence request parts he hneed => ?_⟩
  · exact horders.inOrder conversationId hclean hord (m, a.tlMessageId) (mem_sequenced.2 ⟨a, ha, hac, hm, rfl⟩)
      (n, b.tlMessageId) (mem_sequenced.2 ⟨b, hb, hbc, hn, rfl⟩) hlt
  · rcases horders.justified _ he with he | he
    · rw [hevents] at he
      cases he
    · exact he hneed

instance (conversationId : Nat) : DecidablePred (PartEvent.Disorders conversationId) := fun e =>
  match e with
  | .resequenced part _ => inferInstanceAs (Decidable (part.conversationId = conversationId))
  | .allocated conversation nativeSequence request parts =>
    inferInstanceAs (Decidable (conversation = conversationId ∧ nativeSequence.isSome ∧ request.NeedsRelaxedPass parts))

def sequencedMessage (id : String) (nativeSequence : Nat) : IMMessage :=
  { plainMessage id [.text id []] with metadata := [("qqMsgSeq", .num nativeSequence)] }

def backfilled : List (MessageReader × StoreOperation) :=
  [(plainReader, .ingest plainSession plainGroup (sequencedMessage "first" 10) .live),
   (plainReader, .ingest plainSession plainGroup (sequencedMessage "third" 30) .live),
   (plainReader, .ingest plainSession plainGroup (sequencedMessage "second" 20) .history)]

theorem native_order_of_backfilled :
    let now := (Runs.final MessageStore.step Database.empty backfilled).tables
    now.parts.rows.length = 3 ∧
      ∀ a ∈ now.parts.rows, ∀ b ∈ now.parts.rows, a.conversationId = 1 → b.conversationId = 1 →
        ∀ m n, a.nativeSequence = some m → b.nativeSequence = some n → m < n → a.tlMessageId < b.tlMessageId :=
  ⟨by decide +kernel, (native_order_is_id_order Database.empty Placed.nil rfl backfilled 1
    (fun _ h => by cases h)).1 (by decide +kernel)⟩

end Crossgram
