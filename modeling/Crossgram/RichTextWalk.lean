import Crossgram.RichTextTree
/-!
# RichTextWalk — a tree back to text with entities (packages/bridge/src/rich-message.ts, `richTextContent`)

The walk collects the text of a tree and hands the formats down.  A node that is left gives an entity for every format
that was handed to it, so a link inside another one does not hide it; a link without a target gives none.
-/
namespace Crossgram
namespace RichTextWalk

open List RichTextTree

variable {α : Type}

inductive RichTextNode (α : Type)
  | textEmpty
  | textPlain (text : List α)
  | textBold (text : RichTextNode α)
  | textItalic (text : RichTextNode α)
  | textUnderline (text : RichTextNode α)
  | textStrike (text : RichTextNode α)
  | textFixed (text : RichTextNode α)
  | textUrl (text : RichTextNode α) (url : List α)
  | textMentionName (text : RichTextNode α) (userId : Int)
  | textCustomEmoji (documentId : Option UInt64) (alt : List α)
  | textConcat (texts : List (RichTextNode α))
  | textMath (source : List α)
  | otherString (text : List α)
  | otherNode (text : RichTextNode α)
  | otherSource (source : List α)

mutual

/-- A tree of `richTextToTl`, as the walk reads it. -/
def node : TypeRichText α → RichTextNode α
  | .textPlain text                 => .textPlain text
  | .textBold text                  => .textBold (node text)
  | .textItalic text                => .textItalic (node text)
  | .textUnderline text             => .textUnderline (node text)
  | .textStrike text                => .textStrike (node text)
  | .textFixed text                 => .textFixed (node text)
  | .textUrl text url               => .textUrl (node text) url
  | .textMentionName text userId    => .textMentionName (node text) userId
  | .textCustomEmoji documentId alt => .textCustomEmoji (some documentId) alt
  | .textConcat texts               => .textConcat (nodes texts)

def nodes : List (TypeRichText α) → List (RichTextNode α)
  | []            => []
  | text :: texts => node text :: nodes texts

end

/-! ## The walk -/

structure RichTextFormat (α : Type) where
  bold : Bool := false
  italic : Bool := false
  underline : Bool := false
  strike : Bool := false
  code : Bool := false
  pre : Option (List α) := none
  url : Option (List α) := none

def RichTextFormat.kinds (format : RichTextFormat α) : List (EntityKind α) :=
  (match format.url with
    | some url => if url.isEmpty then [] else [.textUrl url]
    | none     => [])
    ++ (if format.code then [.code] else []) ++ (if format.bold then [.bold] else [])
    ++ (if format.italic then [.italic] else []) ++ (if format.underline then [.underline] else [])
    ++ (if format.strike then [.strike] else [])

/-- `decorate`: the entities of what was added since `offset`. -/
def decorate (format : RichTextFormat α) (offset : Nat) (state : RichTextContent α) : RichTextContent α :=
  let length := state.text.length - offset
  if length = 0 then state
  else
    match format.pre with
    | some language => { state with entities := state.entities ++ [⟨.pre language, offset, length⟩] }
    | none          => { state with entities := state.entities ++ format.kinds.map (fun kind => ⟨kind, offset, length⟩) }

section

variable [TextUnit α]

mutual

def walkRichText : RichTextNode α → RichTextContent α → RichTextFormat α → RichTextContent α
  | .textEmpty,                      state, _      => state
  | .textPlain text,                 state, format =>
    decorate format state.text.length { state with text := state.text ++ text }
  | .textBold text,                  state, format =>
    decorate format state.text.length (walkRichText text state { format with bold := true })
  | .textItalic text,                state, format =>
    decorate format state.text.length (walkRichText text state { format with italic := true })
  | .textUnderline text,             state, format =>
    decorate format state.text.length (walkRichText text state { format with underline := true })
  | .textStrike text,                state, format =>
    decorate format state.text.length (walkRichText text state { format with strike := true })
  | .textFixed text,                 state, format =>
    decorate format state.text.length (walkRichText text state { format with code := true })
  | .textUrl text url,               state, format =>
    decorate format state.text.length (walkRichText text state { format with url := some url })
  | .textMentionName text userId,    state, format =>
    let inner := walkRichText text state format
    let length := inner.text.length - state.text.length
    decorate format state.text.length
      (if length = 0 then inner
        else { inner with entities := inner.entities ++ [⟨.mentionName userId, state.text.length, length⟩] })
  | .textCustomEmoji documentId alt, state, format =>
    let added := { state with text := state.text ++ alt }
    decorate format state.text.length
      (match documentId with
        | some documentId =>
          if alt.isEmpty then added
          else { added with entities := added.entities ++ [⟨.customEmoji documentId, state.text.length, alt.length⟩] }
        | none            => added)
  | .textConcat texts,               state, format => decorate format state.text.length (walkAll texts state format)
  | .textMath source,                state, format =>
    decorate format state.text.length
      { state with text := state.text ++ (if source.isEmpty then [] else TextUnit.lit 36 :: (source ++ [TextUnit.lit 36])) }
  | .otherString text,               state, format =>
    decorate format state.text.length { state with text := state.text ++ text }
  | .otherNode text,                 state, format => decorate format state.text.length (walkRichText text state format)
  | .otherSource source,             state, format =>
    decorate format state.text.length { state with text := state.text ++ source }

/-- The children of `textConcat`, one behind the other. -/
def walkAll : List (RichTextNode α) → RichTextContent α → RichTextFormat α → RichTextContent α
  | [],            state, _      => state
  | text :: texts, state, format => walkAll texts (walkRichText text state format) format

end

def richTextContent (input : RichTextNode α) : RichTextContent α := walkRichText input { text := [], entities := [] } {}

end

/-! ## Styles -/

def isStyle : EntityKind α → Bool
  | .bold      => true
  | .italic    => true
  | .underline => true
  | .strike    => true
  | .code      => true
  | .textUrl _ => true
  | _          => false

/-- An entity of this kind covers place `i`. -/
def Covered (kind : EntityKind α) (entities : List (MessageEntity α)) (i : Nat) : Prop :=
  ∃ entity ∈ entities, entity.kind = kind ∧ entity.offset ≤ i ∧ i < entity.offset + entity.length

variable {kind : EntityKind α}

theorem covered_append {entities entities' : List (MessageEntity α)} {i : Nat} :
    Covered kind (entities ++ entities') i ↔ Covered kind entities i ∨ Covered kind entities' i := by
  unfold Covered
  simp only [mem_append, or_and_right, exists_or]

theorem covered_map {kinds : List (EntityKind α)} {offset length i : Nat} :
    Covered kind (kinds.map (fun kind => ⟨kind, offset, length⟩)) i ↔ kind ∈ kinds ∧ offset ≤ i ∧ i < offset + length := by
  constructor
  · rintro ⟨entity, hentity, hkind, hin⟩
    obtain ⟨kind', hmem, rfl⟩ := mem_map.1 hentity
    exact ⟨hkind ▸ hmem, hin⟩
  · rintro ⟨hmem, hin⟩
    exact ⟨⟨kind, offset, length⟩, mem_map_of_mem hmem, rfl, hin⟩

def RichTextFormat.add (format : RichTextFormat α) : EntityKind α → RichTextFormat α
  | .bold        => { format with bold := true }
  | .italic      => { format with italic := true }
  | .underline   => { format with underline := true }
  | .strike      => { format with strike := true }
  | .code        => { format with code := true }
  | .textUrl url => { format with url := some url }
  | _            => format

theorem add_pre (format : RichTextFormat α) (kind : EntityKind α) : (format.add kind).pre = format.pre := by
  cases kind <;> rfl

theorem mem_kinds {format : RichTextFormat α} : kind ∈ format.kinds ↔
    (∃ url, format.url = some url ∧ url ≠ [] ∧ kind = .textUrl url) ∨ (format.code = true ∧ kind = .code) ∨
      (format.bold = true ∧ kind = .bold) ∨ (format.italic = true ∧ kind = .italic) ∨
      (format.underline = true ∧ kind = .underline) ∨ (format.strike = true ∧ kind = .strike) := by
  have hif : ∀ (b : Bool) (other : EntityKind α), kind ∈ (if b = true then [other] else []) ↔ b = true ∧ kind = other := by
    intro b other
    cases b <;> simp
  have hurl : kind ∈ (match format.url with
      | some url => if url.isEmpty then [] else [EntityKind.textUrl url]
      | none     => []) ↔ ∃ url, format.url = some url ∧ url ≠ [] ∧ kind = .textUrl url := by
    cases format.url with
    | none     => simp
    | some url => cases url <;> simp
  unfold RichTextFormat.kinds
  rw [mem_append, mem_append, mem_append, mem_append, mem_append, hurl, hif, hif, hif, hif, hif]
  simp only [or_assoc]

theorem mem_kinds_add (format : RichTextFormat α) {style : EntityKind α} (hstyle : isStyle style = true)
    (kind : EntityKind α) :
    (kind ∈ (format.add style).kinds ∨ kind ∈ format.kinds) ↔
      (kind ∈ format.kinds ∨ kind = style ∧ kind ≠ .textUrl []) := by
  rw [mem_kinds, mem_kinds]
  cases style with
  | bold                   => simp only [RichTextFormat.add]; grind
  | italic                 => simp only [RichTextFormat.add]; grind
  | underline              => simp only [RichTextFormat.add]; grind
  | strike                 => simp only [RichTextFormat.add]; grind
  | code                   => simp only [RichTextFormat.add]; grind
  | textUrl url            => simp only [RichTextFormat.add]; grind
  | pre language           => cases hstyle
  | mentionName userId     => cases hstyle
  | customEmoji documentId => cases hstyle

/-! ## A piece of the text -/

theorem decorate_add {format : RichTextFormat α} (hpre : format.pre = none) (state : RichTextContent α) {text : List α}
    (htext : text ≠ []) (entities : List (MessageEntity α)) :
    decorate format state.text.length ⟨state.text ++ text, entities⟩ =
      ⟨state.text ++ text, entities ++ format.kinds.map (fun kind => ⟨kind, state.text.length, text.length⟩)⟩ := by
  have hlength : (state.text ++ text).length - state.text.length = text.length := by
    rw [length_append]
    omega
  unfold decorate
  dsimp only
  rw [hlength, if_neg (fun h => htext (length_eq_zero_iff.1 h)), hpre]

theorem decorate_plain (offset : Nat) (state : RichTextContent α) : decorate {} offset state = state := by
  unfold decorate
  dsimp only
  split
  · rfl
  · show (⟨state.text, state.entities ++ []⟩ : RichTextContent α) = state
    rw [append_nil]

section

variable [TextUnit α]

theorem walk_wrap {entity : MessageEntity α} (hstyle : isStyle entity.kind = true) (text : TypeRichText α)
    (state : RichTextContent α) (format : RichTextFormat α) :
    walkRichText (node (wrapRichText text entity)) state format =
      decorate format state.text.length (walkRichText (node text) state (format.add entity.kind)) := by
  unfold wrapRichText
  cases hkind : entity.kind with
  | bold                   => rw [node, walkRichText]; rfl
  | italic                 => rw [node, walkRichText]; rfl
  | underline              => rw [node, walkRichText]; rfl
  | strike                 => rw [node, walkRichText]; rfl
  | code                   => rw [node, walkRichText]; rfl
  | textUrl url            => rw [node, walkRichText]; rfl
  | pre language           => rw [hkind] at hstyle; cases hstyle
  | mentionName userId     => rw [hkind] at hstyle; cases hstyle
  | customEmoji documentId => rw [hkind] at hstyle; cases hstyle

/-- **A wrapped piece** gives its text and entities over all of it: those of the format it is walked with, and those it is
wrapped in. -/
theorem walk_wrapped {text : List α} (htext : text ≠ []) (state : RichTextContent α) :
    ∀ (wrappers : List (MessageEntity α)), (∀ entity ∈ wrappers, isStyle entity.kind = true) →
    ∀ (format : RichTextFormat α), format.pre = none →
      ∃ kinds : List (EntityKind α),
        walkRichText (node (wrappers.foldl wrapRichText (.textPlain text))) state format =
          ⟨state.text ++ text, state.entities ++ kinds.map (fun kind => ⟨kind, state.text.length, text.length⟩)⟩ ∧
        ∀ kind, kind ∈ kinds ↔ kind ∈ format.kinds ∨ (∃ entity ∈ wrappers, entity.kind = kind) ∧ kind ≠ .textUrl [] := by
  intro wrappers
  -- The last wrapper stands outside.
  induction wrappers using List.reverseRecOn with
  | nil                               =>
    intro _ format hpre
    refine ⟨format.kinds, ?_, fun kind => by simp⟩
    rw [foldl_nil, node, walkRichText]
    exact decorate_add hpre state htext state.entities
  | append_singleton wrappers last ih =>
    intro hstyles format hpre
    have hlast := hstyles last (mem_append_right _ mem_cons_self)
    obtain ⟨kinds, hwalk, hkinds⟩ := ih (fun entity he => hstyles entity (mem_append_left _ he))
      (format.add last.kind) ((add_pre format last.kind).trans hpre)
    refine ⟨kinds ++ format.kinds, ?_, fun kind => ?_⟩
    · rw [foldl_append, foldl_cons, foldl_nil, walk_wrap hlast, hwalk,
        decorate_add hpre state htext, map_append, append_assoc]
    · have hadd := mem_kinds_add format hlast kind
      rw [mem_append, hkinds]
      simp only [mem_append, mem_singleton, or_and_right, exists_or, exists_eq_left]
      grind

/-! ## The pieces -/

def covering (content : RichTextContent α) (piece : Nat × Nat) : List (MessageEntity α) :=
  content.entities.filter (fun entity => decide (entity.offset ≤ piece.1) && decide (entity.offset + entity.length ≥ piece.2))

omit [TextUnit α] in
theorem segments_eq (content : RichTextContent α) : ∀ places : List Nat,
    segments content places = (Cuts.pieces places).map (fun piece => segment content piece.1 piece.2)
  | []               => rfl
  | [_]              => rfl
  | a :: b :: places => by
    have ih := segments_eq content (b :: places)
    rw [segments, Cuts.pieces]
    split
    · exact ih
    · rw [map_cons, ih]

/-- **The pieces one behind the other** give their text, and cover with what covered each of them. -/
theorem walk_pieces {content : RichTextContent α} (hstyles : ∀ entity ∈ content.entities, isStyle entity.kind = true) :
    ∀ (places : List Nat) (a : Nat), (a :: places).Pairwise (· ≤ ·) → (∀ x ∈ a :: places, x ≤ content.text.length) →
    ∀ state : RichTextContent α, state.text = content.text.take a →
      (walkAll (nodes (segments content (a :: places))) state {}).text = content.text.take (Cuts.lastPlace a places) ∧
      ∀ kind i, Covered kind (walkAll (nodes (segments content (a :: places))) state {}).entities i ↔
        Covered kind state.entities i ∨
          (∃ piece ∈ Cuts.pieces (a :: places), (piece.1 ≤ i ∧ i < piece.2) ∧
            ∃ entity ∈ covering content piece, entity.kind = kind) ∧ kind ≠ .textUrl []
  | [],          a, _,       _,       state, htext => by
    rw [segments_eq]
    refine ⟨htext, fun kind i => ?_⟩
    show Covered kind state.entities i ↔ _
    simp [Cuts.pieces]
  | b :: places, a, hsorted, hinside, state, htext => by
    rw [pairwise_cons] at hsorted
    have hab := hsorted.1 b mem_cons_self
    have hinside' : ∀ x ∈ b :: places, x ≤ content.text.length := fun x hx => hinside x (mem_cons_of_mem a hx)
    have ih := walk_pieces hstyles places b hsorted.2 hinside'
    rw [segments, Cuts.lastPlace_cons, Cuts.pieces]
    split
    · rename_i heq
      exact ih state (by rw [htext, heq])
    · rename_i hne
      have hb := hinside' b mem_cons_self
      have hslice : RichText.slice content.text a (b - a) ≠ [] := by
        intro hnil
        have hlength := congrArg List.length hnil
        rw [RichText.slice, length_take, length_drop, length_nil] at hlength
        omega
      obtain ⟨kinds, hwalk, hkinds⟩ := walk_wrapped hslice state
        (covering content (a, b)) (fun entity he => hstyles entity (mem_of_mem_filter he)) {} rfl
      have hfirst : walkRichText (node (segment content a b)) state {} = _ := hwalk
      have hnext : state.text ++ RichText.slice content.text a (b - a) = content.text.take b := by
        rw [htext, RichText.slice, ← take_add, show a + (b - a) = b by omega]
      have hoffset : state.text.length = a := by
        rw [htext, length_take]
        exact Nat.min_eq_left (Nat.le_trans hab hb)
      have hlength : (RichText.slice content.text a (b - a)).length = b - a := by
        rw [RichText.slice, length_take, length_drop]
        omega
      rw [nodes, walkAll, hfirst]
      obtain ⟨hrest, hcovered⟩ := ih ⟨state.text ++ RichText.slice content.text a (b - a), _⟩ hnext
      refine ⟨hrest, fun kind i => ?_⟩
      rw [hcovered kind i, covered_append, covered_map, hkinds, hoffset, hlength]
      have hempty : kind ∉ ({} : RichTextFormat α).kinds := not_mem_nil
      simp only [mem_cons, or_and_right, exists_or, exists_eq_left]
      have hplace : (a ≤ i ∧ i < a + (b - a)) ↔ (a ≤ i ∧ i < b) := by omega
      rw [hplace]
      grind

/-! ## There and back -/

/-- **All pieces of a text** cover with its own entities, links without a target aside. -/
theorem walk_boundaries {content : RichTextContent α} (hstyles : ∀ entity ∈ content.entities, isStyle entity.kind = true)
    (hinside : ∀ entity ∈ content.entities, entity.offset + entity.length ≤ content.text.length) :
    (walkAll (nodes (segments content (boundaries content))) ⟨[], []⟩ {}).text = content.text ∧
      ∀ kind i, Covered kind (walkAll (nodes (segments content (boundaries content))) ⟨[], []⟩ {}).entities i ↔
        Covered kind content.entities i ∧ kind ≠ .textUrl [] := by
  have hsorted : (boundaries content).Pairwise (· ≤ ·) := pairwise_insertionSort _ _
  have hle : ∀ x ∈ boundaries content, x ≤ content.text.length := fun x hx => ((mem_boundaries content x).1 hx).2
  obtain ⟨places, hplaces, hlast⟩ := boundaries_cons content
  rw [hplaces] at hsorted hle ⊢
  obtain ⟨htext, hcovered⟩ := walk_pieces hstyles places 0 hsorted hle ⟨[], []⟩ rfl
  refine ⟨by rw [htext, hlast, take_length], fun kind i => ?_⟩
  rw [hcovered kind i]
  have hends : ∀ entity ∈ content.entities, entity.offset ∈ 0 :: places ∧ entity.offset + entity.length ∈ 0 :: places := by
    intro entity he
    have hin := hinside entity he
    rw [← hplaces]
    exact ⟨(mem_boundaries content _).2 ⟨.inr (.inr ⟨entity, he, .inl rfl⟩), by omega⟩,
      (mem_boundaries content _).2 ⟨.inr (.inr ⟨entity, he, .inr rfl⟩), hin⟩⟩
  constructor
  · rintro (⟨_, hmem, _⟩ | ⟨⟨piece, hpiece, hin, entity, hentity, hkind⟩, hurl⟩)
    · exact absurd hmem not_mem_nil
    · obtain ⟨he, hcovers⟩ := mem_filter.1 hentity
      rw [Bool.and_eq_true, decide_eq_true_eq, decide_eq_true_eq] at hcovers
      have hplace := (Cuts.covers_piece hsorted hpiece hin (hends entity he).1 (hends entity he).2).1 hcovers
      exact ⟨⟨entity, he, hkind, hplace⟩, hurl⟩
  · rintro ⟨⟨entity, he, hkind, hplace⟩, hurl⟩
    have hlt : i < Cuts.lastPlace 0 places := by
      have hin := hinside entity he
      rw [hlast]
      omega
    obtain ⟨piece, hpiece, hin⟩ := Cuts.exists_piece (Nat.zero_le i) hlt
    have hcovers := (Cuts.covers_piece hsorted hpiece hin (hends entity he).1 (hends entity he).2).2 hplace
    refine .inr ⟨⟨piece, hpiece, hin, entity, mem_filter.2 ⟨he, ?_⟩, hkind⟩, hurl⟩
    rw [Bool.and_eq_true, decide_eq_true_eq, decide_eq_true_eq]
    exact hcovers

/-- **A text with styles comes back** from its tree: the same text, and each style and each link covers the same places,
except that a link without a target covers none. -/
theorem richTextContent_richTextToTl (content : RichTextContent α)
    (hstyles : ∀ entity ∈ content.entities, isStyle entity.kind = true)
    (hinside : ∀ entity ∈ content.entities, entity.offset + entity.length ≤ content.text.length) :
    (richTextContent (node (richTextToTl content))).text = content.text ∧
      ∀ kind i, Covered kind (richTextContent (node (richTextToTl content))).entities i ↔
        Covered kind content.entities i ∧ kind ≠ .textUrl [] := by
  unfold richTextToTl richTextContent
  split
  · rename_i hempty
    have hnone : content.entities = [] := isEmpty_iff.1 hempty
    rw [node, walkRichText, decorate_plain, hnone]
    refine ⟨rfl, fun kind i => ⟨?_, fun h => ?_⟩⟩
    · rintro ⟨_, hmem, _⟩
      exact absurd hmem not_mem_nil
    · obtain ⟨⟨_, hmem, _⟩, _⟩ := h
      exact absurd hmem not_mem_nil
  · have hpieces := walk_boundaries hstyles hinside
    split
    · rename_i text hsegments
      rw [hsegments, nodes, nodes, walkAll, walkAll] at hpieces
      exact hpieces
    · rw [node, walkRichText, decorate_plain]
      exact hpieces

end

/-- `ab`, all bold, with a link on its second letter. -/
def linkedText : RichTextContent UInt16 :=
  { text := [97, 98], entities := [⟨.textUrl [120], 1, 1⟩, ⟨.bold, 0, 2⟩] }

theorem richTextContent_richTextToTl_linked :
    (richTextContent (node (richTextToTl linkedText))).text = [97, 98] ∧
      Covered .bold (richTextContent (node (richTextToTl linkedText))).entities 1 ∧
      Covered (.textUrl [120]) (richTextContent (node (richTextToTl linkedText))).entities 1 := by
  have hback := richTextContent_richTextToTl linkedText (by decide) (by decide)
  have hbold : Covered .bold linkedText.entities 1 := ⟨⟨.bold, 0, 2⟩, by decide, rfl, by decide⟩
  have hlink : Covered (.textUrl [120]) linkedText.entities 1 := ⟨⟨.textUrl [120], 1, 1⟩, by decide, rfl, by decide⟩
  exact ⟨hback.1, (hback.2 _ _).2 ⟨hbold, by decide⟩, (hback.2 _ _).2 ⟨hlink, by decide⟩⟩

theorem link_without_target :
    Covered (.textUrl []) ([⟨.textUrl [], 0, 1⟩] : List (MessageEntity UInt16)) 0 ∧
      ¬ Covered (.textUrl [])
        (richTextContent (node (richTextToTl { text := [97], entities := [⟨.textUrl [], 0, 1⟩] } : TypeRichText UInt16))).entities
        0 := by
  have hnone : (richTextContent
      (node (richTextToTl { text := [97], entities := [⟨.textUrl [], 0, 1⟩] } : TypeRichText UInt16))).entities = [] := by
    decide
  refine ⟨⟨⟨.textUrl [], 0, 1⟩, mem_cons_self, rfl, by decide⟩, ?_⟩
  rw [hnone]
  rintro ⟨_, hmem, _⟩
  cases hmem

end RichTextWalk
end Crossgram
