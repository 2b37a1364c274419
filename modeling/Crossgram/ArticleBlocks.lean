import Crossgram.MarkdownBlocks
import Crossgram.MessageRows
/-!
# ArticleBlocks — an article message as page blocks (packages/bridge/src/dialogs.ts, `makeTlArticleMedia`)

A text part is cut at its quotes, and each stretch again at its other entities, clipped to the stretch.  Read from left to
right, with the wrappers around every unit, the blocks are the text with the entities that cover it.
-/
namespace Crossgram
namespace ArticleBlocks

open List RichTextTree

/-- What an entity of a text part is; `D` and `C` stand for emoji definitions and conversations. -/
inductive IMTextEntityType (α D C : Type)
  | mention (userId : String)
  | bold
  | italic
  | underline
  | strikethrough
  | code
  | pre
  | blockquote
  | textLink (url : List α)
  | customEmoji (custom : Bool) (definition : D)
  | conversationLink (conversation : C)

structure IMTextEntity (α D C : Type) where
  type : IMTextEntityType α D C
  offset : Rat
  length : Rat

structure ArticleEntity (α D C : Type) (size : Nat) where
  type : IMTextEntityType α D C
  offset : Nat
  length : Nat
  nonempty : 0 < length
  inside : offset + length ≤ size

structure ArticleMedia where
  id : String
  kind : IMMediaKind
  mimeType : Option String

inductive ArticlePart (α D C : Type)
  | text (text : List α) (entities : List (IMTextEntity α D C))
  | media (media : ArticleMedia)
  | other

structure TlArticleProjectionOptions (α D C : Type) where
  userId : Option (String → Int) := none
  customEmojiId : Option (D → Option UInt64) := none
  conversationLink : Option (C → Option (List α)) := none

inductive ArticleBlock (α : Type)
  | paragraph (text : TypeRichText α)
  | blockquote (text : TypeRichText α)
  | photo (photoId : Nat)

structure RichMessage (α Photo : Type) where
  blocks : List (ArticleBlock α)
  photos : List Photo

variable {α D C Photo : Type}

/-! ## Entities -/

def validArticleEntities (text : List α) (entities : List (IMTextEntity α D C)) : List (ArticleEntity α D C text.length) :=
  entities.filterMap (fun entity =>
    if entity.offset.den = 1 ∧ entity.length.den = 1 ∧ 0 ≤ entity.offset.num then
      if h : 0 < entity.length.num.toNat ∧ entity.offset.num.toNat + entity.length.num.toNat ≤ text.length then
        some ⟨entity.type, entity.offset.num.toNat, entity.length.num.toNat, h.1, h.2⟩
      else none
    else none)

variable {size : Nat}

def ArticleEntity.stop (entity : ArticleEntity α D C size) : Nat := entity.offset + entity.length

def ArticleEntity.isQuote (entity : ArticleEntity α D C size) : Bool :=
  match entity.type with
  | .blockquote => true
  | _           => false

/-- `entity.offset <= start && entity.offset + entity.length >= end` -/
def ArticleEntity.covers (entity : ArticleEntity α D C size) (piece : Nat × Nat) : Bool :=
  decide (entity.offset ≤ piece.1) && decide (piece.2 ≤ entity.stop)

def sortPlaces (places : List Nat) : List Nat := (Maps.distinct places).insertionSort (· ≤ ·)

/-! ## The text of a block -/

def wrapsFirst (left right : ArticleEntity α D C size) : Prop :=
  right.offset < left.offset ∨ left.offset = right.offset ∧ left.length ≤ right.length

instance (left right : ArticleEntity α D C size) : Decidable (wrapsFirst left right) := inferInstanceAs (Decidable (_ ∨ _))

/-- One round of the wrapping; `plain` is the text of the piece. -/
def wrapSegment (options : TlArticleProjectionOptions α D C) (plain : List α) (segment : TypeRichText α)
    (entity : ArticleEntity α D C size) : TypeRichText α :=
  match entity.type with
  | .bold                          => .textBold segment
  | .italic                        => .textItalic segment
  | .underline                     => .textUnderline segment
  | .strikethrough                 => .textStrike segment
  | .code                          => .textFixed segment
  | .pre                           => .textFixed segment
  | .textLink url                  => .textUrl segment url
  | .mention userId                =>
    match options.userId with
    | some resolve => .textMentionName segment (resolve userId)
    | none         => segment
  | .customEmoji custom definition =>
    if custom then
      match options.customEmojiId.bind (fun resolve => resolve definition) with
      | some id => .textCustomEmoji id plain
      | none    => segment
    else segment
  | .conversationLink conversation =>
    match options.conversationLink.bind (fun resolve => resolve conversation) with
    | some url => if url.isEmpty then segment else .textUrl segment url
    | none     => segment
  | .blockquote                    => segment

def entitiesWithin (valid : List (ArticleEntity α D C size)) (start stop : Nat) : List (ArticleEntity α D C size) :=
  valid.filter (fun entity => !entity.isQuote && decide (entity.offset < stop) && decide (start < entity.stop))

def makeSegment (text : List α) (options : TlArticleProjectionOptions α D C)
    (valid : List (ArticleEntity α D C text.length)) (piece : Nat × Nat) : TypeRichText α :=
  let plain := RichText.slice text piece.1 (piece.2 - piece.1)
  ((valid.filter (fun entity => entity.covers piece)).insertionSort wrapsFirst).foldl (wrapSegment options plain)
    (.textPlain plain)

def clippedBoundaries (valid : List (ArticleEntity α D C size)) (start stop : Nat) : List Nat :=
  sortPlaces ([start, stop] ++ valid.flatMap (fun entity => [max start entity.offset, min stop entity.stop]))

/-- `segments.length === 1 ? segments[0] : { _: 'textConcat', texts: segments }` -/
def joinSegments : List (TypeRichText α) → TypeRichText α
  | [text] => text
  | texts  => .textConcat texts

def makeTlRichText (text : List α) (entities : List (IMTextEntity α D C)) (start stop : Nat)
    (options : TlArticleProjectionOptions α D C) : TypeRichText α :=
  let valid := entitiesWithin (validArticleEntities text entities) start stop
  joinSegments ((Cuts.pieces (clippedBoundaries valid start stop)).map (makeSegment text options valid))

/-! ## The blocks -/

def textBlocks (text : List α) (entities : List (IMTextEntity α D C)) (options : TlArticleProjectionOptions α D C) :
    List (ArticleBlock α) :=
  let quotes := (validArticleEntities text entities).filter ArticleEntity.isQuote
  let boundaries := sortPlaces ([0, text.length] ++ quotes.flatMap (fun entity => [entity.offset, entity.stop]))
  (Cuts.pieces boundaries).map (fun piece =>
    let block := makeTlRichText text entities piece.1 piece.2 options
    if quotes.any (fun entity => entity.covers piece) then .blockquote block else .paragraph block)

section

variable [TextUnit α]

def isBlank (text : List α) : Bool := (MarkdownBlocks.trim text).isEmpty

def ArticlePart.isMedia : ArticlePart α D C → Bool
  | .media _ => true
  | _        => false

def isArticleMessage (parts : List (ArticlePart α D C)) : Bool :=
  let media := parts.filterMap (fun part => match part with
    | .media media => some media
    | _            => none)
  decide (2 ≤ media.length)
    && parts.all (fun part => match part with
      | .other => false
      | _      => true)
    && media.all (fun item => decide (item.kind = .image) && decide (item.mimeType ≠ some "image/gif")
      && decide (item.mimeType ≠ some "image/apng"))
    && parts.zipIdx.any (fun part => match part.1 with
      | .text text _ => !isBlank text && (parts.take part.2).any ArticlePart.isMedia
          && (parts.drop (part.2 + 1)).any ArticlePart.isMedia
      | _            => false)

/-- The loop over the parts, the first one at `partIndex`; a media part without a row ends it without a result. -/
def articleParts (makeTlPhoto : IMMediaRow → Photo) (mediaRows : List IMMediaRow)
    (options : TlArticleProjectionOptions α D C) :
    Nat → List (ArticlePart α D C) → RichMessage α Photo → Option (RichMessage α Photo)
  | _,         [],            message => some message
  | partIndex, part :: parts, message =>
    match part with
    | .text text entities =>
      articleParts makeTlPhoto mediaRows options (partIndex + 1) parts
        (if isBlank text then message
          else { message with blocks := message.blocks ++ textBlocks text entities options })
    | .media media        =>
      match mediaRows.find? (fun row => decide (row.partIndex = partIndex) && decide (row.platformMediaId = media.id)) with
      | none     => none
      | some row => articleParts makeTlPhoto mediaRows options (partIndex + 1) parts
          { blocks := message.blocks ++ [.photo row.id], photos := message.photos ++ [makeTlPhoto row] }
    | .other              => articleParts makeTlPhoto mediaRows options (partIndex + 1) parts message

/-- `makeTlArticleMedia`; `makeTlPhoto` makes a row's photo, under the row's id. -/
def makeTlArticleMedia (makeTlPhoto : IMMediaRow → Photo) (parts : List (ArticlePart α D C))
    (mediaRows : List IMMediaRow) (options : TlArticleProjectionOptions α D C) : Option (RichMessage α Photo) :=
  if isArticleMessage parts then articleParts makeTlPhoto mediaRows options 0 parts { blocks := [], photos := [] }
  else none

end

/-! ## Reading the blocks -/

inductive Wrapper (α : Type)
  | bold
  | italic
  | underline
  | strike
  | fixed
  | url (url : List α)
  | mentionName (userId : Int)
  | customEmoji (documentId : UInt64)

mutual

def styled : TypeRichText α → List (Wrapper α) → List (α × List (Wrapper α))
  | .textPlain text,                 outer => text.map (fun a => (a, outer))
  | .textBold text,                  outer => styled text (.bold :: outer)
  | .textItalic text,                outer => styled text (.italic :: outer)
  | .textUnderline text,             outer => styled text (.underline :: outer)
  | .textStrike text,                outer => styled text (.strike :: outer)
  | .textFixed text,                 outer => styled text (.fixed :: outer)
  | .textUrl text url,               outer => styled text (.url url :: outer)
  | .textMentionName text userId,    outer => styled text (.mentionName userId :: outer)
  | .textCustomEmoji documentId alt, outer => alt.map (fun a => (a, .customEmoji documentId :: outer))
  | .textConcat texts,               outer => styledAll texts outer

def styledAll : List (TypeRichText α) → List (Wrapper α) → List (α × List (Wrapper α))
  | [],            _     => []
  | text :: texts, outer => styled text outer ++ styledAll texts outer

end

structure ShownUnit (α : Type) where
  unit : α
  quoted : Bool
  wrappers : List (Wrapper α)

def ArticleBlock.shown : ArticleBlock α → List (ShownUnit α)
  | .paragraph text  => (styled text []).map (fun u => ⟨u.1, false, u.2⟩)
  | .blockquote text => (styled text []).map (fun u => ⟨u.1, true, u.2⟩)
  | .photo _         => []

def emojiOf (options : TlArticleProjectionOptions α D C) : IMTextEntityType α D C → Option UInt64
  | .customEmoji true definition => options.customEmojiId.bind (fun resolve => resolve definition)
  | _                            => none

def wrapperOf (options : TlArticleProjectionOptions α D C) : IMTextEntityType α D C → Option (Wrapper α)
  | .mention userId                => options.userId.map (fun resolve => .mentionName (resolve userId))
  | .bold                          => some .bold
  | .italic                        => some .italic
  | .underline                     => some .underline
  | .strikethrough                 => some .strike
  | .code                          => some .fixed
  | .pre                           => some .fixed
  | .textLink url                  => some (.url url)
  | .conversationLink conversation =>
    (options.conversationLink.bind (fun resolve => resolve conversation)).bind
      (fun url => if url.isEmpty then none else some (.url url))
  | _                              => none

/-! ### One piece -/

def Shows (segment : TypeRichText α) (plain : List α) (wrappers : List (Wrapper α)) : Prop :=
  ∀ outer, styled segment outer = plain.map (fun a => (a, wrappers ++ outer))

variable {options : TlArticleProjectionOptions α D C} {plain : List α}

def wrapWith (options : TlArticleProjectionOptions α D C) (wrappers : List (Wrapper α)) (entity : ArticleEntity α D C size) :
    List (Wrapper α) :=
  match emojiOf options entity.type with
  | some documentId => [.customEmoji documentId]
  | none            => wrappers ++ (wrapperOf options entity.type).toList

theorem Shows.wrap {segment : TypeRichText α} {wrappers : List (Wrapper α)} (h : Shows segment plain wrappers)
    (entity : ArticleEntity α D C size) :
    Shows (wrapSegment options plain segment entity) plain (wrapWith options wrappers entity) := by
  have hsame : ∀ outer, styled segment outer = plain.map (fun a => (a, wrappers ++ [] ++ outer)) := by
    intro outer
    rw [append_nil]
    exact h outer
  have hone : ∀ (w : Wrapper α) outer, styled segment (w :: outer) = plain.map (fun a => (a, wrappers ++ [w] ++ outer)) := by
    intro w outer
    rw [append_assoc]
    exact h (w :: outer)
  intro outer
  unfold wrapSegment wrapWith
  cases entity.type with
  | mention userId                =>
    dsimp only [emojiOf, wrapperOf]
    cases options.userId with
    | none         => exact hsame outer
    | some resolve => exact hone _ outer
  | bold                          => exact hone _ outer
  | italic                        => exact hone _ outer
  | underline                     => exact hone _ outer
  | strikethrough                 => exact hone _ outer
  | code                          => exact hone _ outer
  | pre                           => exact hone _ outer
  | blockquote                    => exact hsame outer
  | textLink url                  => exact hone _ outer
  | customEmoji custom definition =>
    cases custom with
    | false => exact hsame outer
    | true  =>
      dsimp only [emojiOf, wrapperOf]
      rw [if_pos rfl]
      cases options.customEmojiId.bind (fun resolve => resolve definition) with
      | none    => exact hsame outer
      | some id => rfl
  | conversationLink conversation =>
    dsimp only [emojiOf, wrapperOf]
    cases options.conversationLink.bind (fun resolve => resolve conversation) with
    | none     => exact hsame outer
    | some url =>
      rw [Option.bind_some]
      dsimp only
      split
      · exact hsame outer
      · exact hone _ outer

theorem Shows.foldl : ∀ (entities : List (ArticleEntity α D C size)) {segment : TypeRichText α} {wrappers : List (Wrapper α)},
    Shows segment plain wrappers →
      Shows (entities.foldl (wrapSegment options plain) segment) plain (entities.foldl (wrapWith options) wrappers)
  | [],                 _, _, h => h
  | entity :: entities, _, _, h => Shows.foldl entities (h.wrap entity)

theorem mem_foldl_wrapWith : ∀ {entities : List (ArticleEntity α D C size)} {wrappers : List (Wrapper α)},
    (∀ entity ∈ entities, emojiOf options entity.type = none) → ∀ w,
      w ∈ entities.foldl (wrapWith options) wrappers ↔
        w ∈ wrappers ∨ ∃ entity ∈ entities, wrapperOf options entity.type = some w
  | [],                 wrappers, _,    w => by simp
  | entity :: entities, wrappers, hnone, w => by
    have hfirst := hnone entity mem_cons_self
    rw [foldl_cons, mem_foldl_wrapWith (fun e he => hnone e (mem_cons_of_mem entity he)), wrapWith, hfirst]
    simp only [mem_append, Option.mem_toList, mem_cons, or_assoc, or_and_right, exists_or, exists_eq_left]

/-! ### A stretch, place by place -/

theorem sorted_sortPlaces (places : List Nat) : (sortPlaces places).Pairwise (· ≤ ·) := pairwise_insertionSort _ _

theorem mem_sortPlaces {places : List Nat} {x : Nat} : x ∈ sortPlaces places ↔ x ∈ places := by
  rw [sortPlaces, mem_insertionSort, Maps.mem_distinct]

theorem sortPlaces_cons {a b : Nat} (hab : a ≤ b) {places : List Nat} (hbounds : ∀ x ∈ places, a ≤ x ∧ x ≤ b) :
    ∃ rest, sortPlaces ([a, b] ++ places) = a :: rest ∧ Cuts.lastPlace a rest = b := by
  refine Cuts.cons_of_bounds (sorted_sortPlaces _) (mem_sortPlaces.2 (by simp)) (mem_sortPlaces.2 (by simp)) (fun x hx => ?_)
  have hmem := mem_sortPlaces.1 hx
  rw [cons_append, cons_append, nil_append, mem_cons, mem_cons] at hmem
  rcases hmem with rfl | rfl | hmem
  · exact ⟨Nat.le_refl x, hab⟩
  · exact ⟨hab, Nat.le_refl x⟩
  · exact hbounds x hmem

theorem slice_places (text : List α) {a n : Nat} (h : a + n ≤ text.length) :
    (RichText.slice text a n).map some = (List.range' a n).map (fun i => text[i]?) := by
  refine ext_getElem? (fun i => ?_)
  rw [List.getElem?_map, List.getElem?_map, RichText.slice]
  by_cases hi : i < n
  · rw [getElem?_take_of_lt hi, getElem?_drop, List.getElem?_range' hi, Option.map_some, Nat.one_mul]
    rw [getElem?_eq_getElem (show a + i < text.length by omega)]
    rfl
  · rw [getElem?_eq_none (by rw [length_take]; omega), getElem?_eq_none (by rw [length_range']; omega)]
    rfl

/-- The entities over place `i` that are no quotes, in the order they wrap. -/
def coveringAt (valid : List (ArticleEntity α D C size)) (i : Nat) : List (ArticleEntity α D C size) :=
  (valid.filter (fun entity => !entity.isQuote && entity.covers (i, i + 1))).insertionSort wrapsFirst

def wrappersAt (options : TlArticleProjectionOptions α D C) (valid : List (ArticleEntity α D C size)) (i : Nat) :
    List (Wrapper α) := (coveringAt valid i).foldl (wrapWith options) []

theorem covers_iff {entity : ArticleEntity α D C size} {a b : Nat} :
    entity.covers (a, b) = true ↔ entity.offset ≤ a ∧ b ≤ entity.stop := by
  rw [ArticleEntity.covers, Bool.and_eq_true, decide_eq_true_eq, decide_eq_true_eq]

section

variable {valid : List (ArticleEntity α D C size)} {start stop : Nat}

theorem clippedBoundaries_cons (valid : List (ArticleEntity α D C size)) (hle : start ≤ stop) :
    ∃ rest, clippedBoundaries (entitiesWithin valid start stop) start stop = start :: rest ∧ Cuts.lastPlace start rest = stop := by
  refine sortPlaces_cons hle (fun x hx => ?_)
  obtain ⟨entity, hentity, hx⟩ := mem_flatMap.1 hx
  obtain ⟨_, hin⟩ := mem_filter.1 hentity
  simp only [Bool.and_eq_true, decide_eq_true_eq] at hin
  simp only [mem_cons, not_mem_nil, or_false] at hx
  rcases hx with rfl | rfl <;> omega

theorem piece_within (hle : start ≤ stop) {piece : Nat × Nat}
    (hpiece : piece ∈ Cuts.pieces (clippedBoundaries (entitiesWithin valid start stop) start stop)) :
    start ≤ piece.1 ∧ piece.1 < piece.2 ∧ piece.2 ≤ stop := by
  have hsorted : (clippedBoundaries (entitiesWithin valid start stop) start stop).Pairwise (· ≤ ·) := sorted_sortPlaces _
  obtain ⟨rest, hrest, hlast⟩ := clippedBoundaries_cons valid hle
  obtain ⟨hlt, hleft, hright, _⟩ := Cuts.piece_spec hsorted piece hpiece
  rw [hrest] at hsorted hleft hright
  refine ⟨?_, hlt, ?_⟩
  · rcases mem_cons.1 hleft with heq | hmem
    · exact Nat.le_of_eq heq.symm
    · exact (pairwise_cons.1 hsorted).1 _ hmem
  · rw [← hlast]
    exact hsorted.rel_getLast hright

/-- **A piece is covered as each of its places is.** -/
theorem filter_covers (hle : start ≤ stop) {piece : Nat × Nat}
    (hpiece : piece ∈ Cuts.pieces (clippedBoundaries (entitiesWithin valid start stop) start stop)) {i : Nat}
    (hin : piece.1 ≤ i ∧ i < piece.2) :
    (entitiesWithin valid start stop).filter (fun entity => entity.covers piece) =
      valid.filter (fun entity => !entity.isQuote && entity.covers (i, i + 1)) := by
  have hsorted : (clippedBoundaries (entitiesWithin valid start stop) start stop).Pairwise (· ≤ ·) := sorted_sortPlaces _
  obtain ⟨hfirst, hlt, hlast⟩ := piece_within hle hpiece
  rw [entitiesWithin, filter_filter]
  refine filter_congr (fun entity hentity => Bool.eq_iff_iff.2 ?_)
  rw [show piece = (piece.1, piece.2) from rfl]
  simp only [Bool.and_eq_true, decide_eq_true_eq, covers_iff, Bool.not_eq_true']
  constructor
  · rintro ⟨hcovers, ⟨hquote, _⟩, _⟩
    exact ⟨hquote, by omega⟩
  · rintro ⟨hquote, hcovers⟩
    have hwithin : entity ∈ entitiesWithin valid start stop := by
      refine mem_filter.2 ⟨hentity, ?_⟩
      simp only [Bool.and_eq_true, decide_eq_true_eq, Bool.not_eq_true']
      exact ⟨⟨hquote, by omega⟩, by omega⟩
    have hends : ∀ x ∈ [max start entity.offset, min stop entity.stop],
        x ∈ clippedBoundaries (entitiesWithin valid start stop) start stop := fun x hx =>
      mem_sortPlaces.2 (mem_append_right _ (mem_flatMap.2 ⟨entity, hwithin, hx⟩))
    -- Inside the stretch an entity may be clipped: its clipped ends are places.
    have hclipped := (Cuts.covers_piece hsorted hpiece hin (hends (max start entity.offset) (by simp))
      (hends (min stop entity.stop) (by simp))).2 (by omega)
    exact ⟨by omega, ⟨hquote, by omega⟩, by omega⟩

end

theorem styledAll_eq (outer : List (Wrapper α)) : ∀ texts : List (TypeRichText α),
    styledAll texts outer = texts.flatMap (fun text => styled text outer)
  | []            => rfl
  | text :: texts => by
    rw [styledAll, flatMap_cons, styledAll_eq outer texts]

theorem styled_joinSegments (segments : List (TypeRichText α)) (outer : List (Wrapper α)) :
    styled (joinSegments segments) outer = segments.flatMap (fun segment => styled segment outer) := by
  unfold joinSegments
  split
  · rw [flatMap_singleton]
  · rw [styled, styledAll_eq]

/-- **A piece**, place by place. -/
theorem styled_makeSegment (text : List α) (entities : List (IMTextEntity α D C)) {start stop : Nat} (hle : start ≤ stop)
    (hstop : stop ≤ text.length) (options : TlArticleProjectionOptions α D C) {piece : Nat × Nat}
    (hpiece : piece ∈ Cuts.pieces
      (clippedBoundaries (entitiesWithin (validArticleEntities text entities) start stop) start stop)) :
    (styled (makeSegment text options (entitiesWithin (validArticleEntities text entities) start stop) piece) []).map some =
      (List.range' piece.1 (piece.2 - piece.1)).map (fun i =>
        text[i]?.map (fun a => (a, wrappersAt options (validArticleEntities text entities) i))) := by
  obtain ⟨hfirst, hlt, hlast⟩ := piece_within hle hpiece
  have hplain : Shows (.textPlain (RichText.slice text piece.1 (piece.2 - piece.1)))
      (RichText.slice text piece.1 (piece.2 - piece.1)) [] := fun outer => by rw [styled]; rfl
  unfold makeSegment
  dsimp only
  rw [Shows.foldl _ hplain []]
  have hplaces := slice_places text (show piece.1 + (piece.2 - piece.1) ≤ text.length by omega)
  have hwrap : ∀ i ∈ List.range' piece.1 (piece.2 - piece.1),
      ((((entitiesWithin (validArticleEntities text entities) start stop).filter
        (fun entity => entity.covers piece)).insertionSort wrapsFirst).foldl (wrapWith options) []) ++ [] =
      wrappersAt options (validArticleEntities text entities) i := by
    intro i hi
    rw [mem_range'_1] at hi
    rw [filter_covers hle hpiece (i := i) (by omega), append_nil]
    rfl
  generalize ((((entitiesWithin (validArticleEntities text entities) start stop).filter
    (fun entity => entity.covers piece)).insertionSort wrapsFirst).foldl (wrapWith options) []) ++ [] = wrappers at hwrap ⊢
  rw [map_map]
  calc (RichText.slice text piece.1 (piece.2 - piece.1)).map (some ∘ fun a => (a, wrappers))
      = ((RichText.slice text piece.1 (piece.2 - piece.1)).map some).map (Option.map (fun a => (a, wrappers))) := by
        rw [map_map]
        rfl
    _ = ((List.range' piece.1 (piece.2 - piece.1)).map (fun i => text[i]?)).map (Option.map (fun a => (a, wrappers))) := by
        rw [hplaces]
    _ = _ := by
        rw [map_map]
        refine map_congr_left (fun i hi => ?_)
        rw [← hwrap i hi]
        rfl

/-- **The text of a stretch**, place by place, each with the wrappers of the entities that cover it. -/
theorem styled_makeTlRichText (text : List α) (entities : List (IMTextEntity α D C)) {start stop : Nat} (hle : start ≤ stop)
    (hstop : stop ≤ text.length) (options : TlArticleProjectionOptions α D C) :
    (styled (makeTlRichText text entities start stop options) []).map some =
      (List.range' start (stop - start)).map (fun i =>
        text[i]?.map (fun a => (a, wrappersAt options (validArticleEntities text entities) i))) := by
  obtain ⟨rest, hrest, hlast⟩ := clippedBoundaries_cons (validArticleEntities text entities) hle
  have hsorted : (clippedBoundaries (entitiesWithin (validArticleEntities text entities) start stop) start stop).Pairwise
      (· ≤ ·) := sorted_sortPlaces _
  have hpieces := Cuts.pieces_flatMap (fun i =>
    text[i]?.map (fun a => (a, wrappersAt options (validArticleEntities text entities) i))) (hrest ▸ hsorted)
  rw [hlast, ← hrest] at hpieces
  unfold makeTlRichText
  dsimp only
  rw [styled_joinSegments, flatMap_map, map_flatMap, ← hpieces]
  exact flatMap_congr (fun piece hpiece => styled_makeSegment text entities hle hstop options hpiece)

/-! ### The blocks of a part -/

/-- A quote covers place `i`. -/
def quotedAt (valid : List (ArticleEntity α D C size)) (i : Nat) : Bool :=
  (valid.filter ArticleEntity.isQuote).any (fun entity => entity.covers (i, i + 1))

/-- What stands at place `i` of a text. -/
def shownAt (text : List α) (entities : List (IMTextEntity α D C)) (options : TlArticleProjectionOptions α D C) (i : Nat) :
    Option (ShownUnit α) :=
  text[i]?.map (fun a => ⟨a, quotedAt (validArticleEntities text entities) i,
    wrappersAt options (validArticleEntities text entities) i⟩)

theorem shown_block (quoted : Bool) (text : TypeRichText α) :
    (if quoted then ArticleBlock.blockquote text else .paragraph text).shown =
      (styled text []).map (fun u => ⟨u.1, quoted, u.2⟩) := by
  cases quoted <;> rfl

/-- **The blocks of a text part**, place by place. -/
theorem shown_textBlocks (text : List α) (entities : List (IMTextEntity α D C)) (options : TlArticleProjectionOptions α D C) :
    ((textBlocks text entities options).flatMap ArticleBlock.shown).map some =
      (List.range' 0 text.length).map (shownAt text entities options) := by
  have hbounds : ∀ x ∈ ((validArticleEntities text entities).filter ArticleEntity.isQuote).flatMap
      (fun entity => [entity.offset, entity.stop]), 0 ≤ x ∧ x ≤ text.length := by
    intro x hx
    obtain ⟨entity, _, hx⟩ := mem_flatMap.1 hx
    have hinside := entity.inside
    simp only [mem_cons, not_mem_nil, or_false] at hx
    rcases hx with rfl | rfl
    · exact ⟨Nat.zero_le _, by omega⟩
    · exact ⟨Nat.zero_le _, hinside⟩
  have hsorted := sorted_sortPlaces ([0, text.length] ++
    ((validArticleEntities text entities).filter ArticleEntity.isQuote).flatMap (fun entity => [entity.offset, entity.stop]))
  obtain ⟨rest, hrest, hlast⟩ := sortPlaces_cons (Nat.zero_le text.length) hbounds
  have hpieces := Cuts.pieces_flatMap (shownAt text entities options) (hrest ▸ hsorted)
  rw [hlast, ← hrest, Nat.sub_zero] at hpieces
  unfold textBlocks
  dsimp only
  rw [flatMap_map, map_flatMap, ← hpieces]
  refine flatMap_congr (fun piece hpiece => ?_)
  obtain ⟨hlt, _, hright, _⟩ := Cuts.piece_spec hsorted piece hpiece
  have hend : piece.2 ≤ text.length := by
    rw [hrest] at hright hsorted
    rw [← hlast]
    exact hsorted.rel_getLast hright
  have hquoted : ∀ i ∈ List.range' piece.1 (piece.2 - piece.1),
      ((validArticleEntities text entities).filter ArticleEntity.isQuote).any (fun entity => entity.covers piece) =
        quotedAt (validArticleEntities text entities) i := by
    intro i hi
    rw [mem_range'_1] at hi
    have hcovers : ∀ entity ∈ (validArticleEntities text entities).filter ArticleEntity.isQuote,
        (entity.covers (piece.1, piece.2) = true ↔ entity.covers (i, i + 1) = true) := by
      intro entity hentity
      have hends : ∀ x ∈ [entity.offset, entity.stop], x ∈ sortPlaces ([0, text.length] ++
          ((validArticleEntities text entities).filter ArticleEntity.isQuote).flatMap
            (fun entity => [entity.offset, entity.stop])) := fun x hx =>
        mem_sortPlaces.2 (mem_append_right _ (mem_flatMap.2 ⟨entity, hentity, hx⟩))
      rw [covers_iff, covers_iff]
      exact Cuts.covers_piece hsorted hpiece (by omega) (hends entity.offset (by simp)) (hends entity.stop (by simp))
    rw [quotedAt, Bool.eq_iff_iff, any_eq_true, any_eq_true]
    constructor
    · rintro ⟨entity, hentity, hcover⟩
      exact ⟨entity, hentity, (hcovers entity hentity).1 hcover⟩
    · rintro ⟨entity, hentity, hcover⟩
      exact ⟨entity, hentity, (hcovers entity hentity).2 hcover⟩
  have hstyled := styled_makeTlRichText text entities (Nat.le_of_lt hlt) hend options
  generalize ((validArticleEntities text entities).filter ArticleEntity.isQuote).any
    (fun entity => entity.covers piece) = quoted at hquoted ⊢
  rw [shown_block, map_map]
  calc (styled (makeTlRichText text entities piece.1 piece.2 options) []).map
        (some ∘ fun u => (⟨u.1, quoted, u.2⟩ : ShownUnit α))
      = ((styled (makeTlRichText text entities piece.1 piece.2 options) []).map some).map
          (Option.map (fun u => ⟨u.1, quoted, u.2⟩)) := by
        rw [map_map]
        rfl
    _ = (List.range' piece.1 (piece.2 - piece.1)).map (shownAt text entities options) := by
        rw [hstyled, map_map]
        refine map_congr_left (fun i hi => ?_)
        rw [hquoted i hi, shownAt, Function.comp_apply, Option.map_map]
        rfl

/-! ## What an article shows -/

/-- **What a text part is shown as**: its text, quoted where a quote covers it, and wrapped in what covers it.  Under a custom
emoji the wrappers are not told. -/
structure TextShown (text : List α) (entities : List (IMTextEntity α D C)) (options : TlArticleProjectionOptions α D C)
    (shown : List (ShownUnit α)) : Prop where
  units : shown.map ShownUnit.unit = text
  quoted : ∀ i u, shown[i]? = some u → (u.quoted = true ↔
    ∃ entity ∈ validArticleEntities text entities, entity.isQuote = true ∧ entity.offset ≤ i ∧ i < entity.stop)
  wrapped : ∀ i u, shown[i]? = some u →
    (∀ entity ∈ validArticleEntities text entities, entity.offset ≤ i → i < entity.stop →
      emojiOf options entity.type = none) →
    ∀ w, w ∈ u.wrappers ↔ ∃ entity ∈ validArticleEntities text entities, entity.offset ≤ i ∧ i < entity.stop ∧
      wrapperOf options entity.type = some w

theorem textShown (text : List α) (entities : List (IMTextEntity α D C)) (options : TlArticleProjectionOptions α D C) :
    TextShown text entities options ((textBlocks text entities options).flatMap ArticleBlock.shown) := by
  have hall := shown_textBlocks text entities options
  generalize (textBlocks text entities options).flatMap ArticleBlock.shown = shown at hall
  have hlength : shown.length = text.length := by
    have := congrArg List.length hall
    simpa only [length_map, length_range'] using this
  have hplace : ∀ i u, shown[i]? = some u → ∃ a, text[i]? = some a ∧
      u = (⟨a, quotedAt (validArticleEntities text entities) i,
        wrappersAt options (validArticleEntities text entities) i⟩ : ShownUnit α) := by
    intro i u hu
    obtain ⟨hi, _⟩ := List.getElem?_eq_some_iff.1 hu
    have hi' : i < text.length := hlength ▸ hi
    have hboth := congrArg (fun l => l[i]?) hall
    rw [List.getElem?_map, List.getElem?_map, hu, List.getElem?_range' hi', Nat.one_mul, Nat.zero_add, Option.map_some,
      Option.map_some, shownAt, getElem?_eq_getElem hi', Option.map_some] at hboth
    exact ⟨_, getElem?_eq_getElem hi', Option.some.inj (Option.some.inj hboth)⟩
  have hat : ∀ (entity : ArticleEntity α D C text.length) i,
      entity.covers (i, i + 1) = true ↔ entity.offset ≤ i ∧ i < entity.stop := fun entity i => covers_iff
  refine ⟨?_, fun i u hu => ?_, fun i u hu hemoji w => ?_⟩
  · refine ext_getElem? (fun i => ?_)
    rw [List.getElem?_map]
    by_cases hi : i < shown.length
    · obtain ⟨a, ha, hu⟩ := hplace i _ (getElem?_eq_getElem hi)
      rw [getElem?_eq_getElem hi, ha, Option.map_some, hu]
    · rw [getElem?_eq_none (Nat.le_of_not_lt hi), getElem?_eq_none (by omega), Option.map_none]
  · obtain ⟨a, _, rfl⟩ := hplace i u hu
    show quotedAt (validArticleEntities text entities) i = true ↔ _
    rw [quotedAt, any_eq_true]
    constructor
    · rintro ⟨entity, hentity, hcover⟩
      obtain ⟨hmem, hquote⟩ := mem_filter.1 hentity
      exact ⟨entity, hmem, hquote, (hat entity i).1 hcover⟩
    · rintro ⟨entity, hmem, hquote, hcover⟩
      exact ⟨entity, mem_filter.2 ⟨hmem, hquote⟩, (hat entity i).2 hcover⟩
  · obtain ⟨a, _, rfl⟩ := hplace i u hu
    show w ∈ wrappersAt options (validArticleEntities text entities) i ↔ _
    have hmem : ∀ entity : ArticleEntity α D C text.length,
        entity ∈ coveringAt (validArticleEntities text entities) i ↔
          entity ∈ validArticleEntities text entities ∧ entity.isQuote = false ∧ entity.offset ≤ i ∧ i < entity.stop := by
      intro entity
      rw [coveringAt, mem_insertionSort, mem_filter, Bool.and_eq_true, hat, Bool.not_eq_true']
    rw [wrappersAt, mem_foldl_wrapWith (fun entity he => hemoji entity ((hmem entity).1 he).1 ((hmem entity).1 he).2.2.1
      ((hmem entity).1 he).2.2.2)]
    constructor
    · rintro (hnil | ⟨entity, he, hw⟩)
      · exact absurd hnil not_mem_nil
      · obtain ⟨hvalid, _, hin⟩ := (hmem entity).1 he
        exact ⟨entity, hvalid, hin.1, hin.2, hw⟩
    · rintro ⟨entity, hvalid, hfirst, hlast, hw⟩
      refine .inr ⟨entity, (hmem entity).2 ⟨hvalid, ?_, hfirst, hlast⟩, hw⟩
      -- A quote wraps nothing.
      unfold ArticleEntity.isQuote
      split
      · rename_i hquote
        rw [hquote] at hw
        cases hw
      · rfl

def IsRowOf (media : ArticleMedia) (partIndex : Nat) (row : IMMediaRow) : Prop :=
  row.partIndex = partIndex ∧ row.platformMediaId = media.id

/-- Every media part has a row, the first part at `partIndex`. -/
def HasRows (mediaRows : List IMMediaRow) : Nat → List (ArticlePart α D C) → Prop
  | _,         []                    => True
  | partIndex, .media media :: parts => (∃ row ∈ mediaRows, IsRowOf media partIndex row) ∧ HasRows mediaRows (partIndex + 1) parts
  | partIndex, _ :: parts            => HasRows mediaRows (partIndex + 1) parts

section

variable [TextUnit α]

def PartShown (mediaRows : List IMMediaRow) (options : TlArticleProjectionOptions α D C) (partIndex : Nat) :
    ArticlePart α D C → List (ArticleBlock α) → Prop
  | .text text entities, blocks =>
    if isBlank text then blocks = [] else TextShown text entities options (blocks.flatMap ArticleBlock.shown)
  | .media media,        blocks => ∃ row ∈ mediaRows, IsRowOf media partIndex row ∧ blocks = [.photo row.id]
  | .other,              blocks => blocks = []

def PartsShown (mediaRows : List IMMediaRow) (options : TlArticleProjectionOptions α D C) :
    Nat → List (ArticlePart α D C) → List (ArticleBlock α) → Prop
  | _,         [],            blocks => blocks = []
  | partIndex, part :: parts, blocks => ∃ own rest, blocks = own ++ rest ∧ PartShown mediaRows options partIndex part own ∧
      PartsShown mediaRows options (partIndex + 1) parts rest

theorem articleParts_shown (makeTlPhoto : IMMediaRow → Photo) (mediaRows : List IMMediaRow)
    (options : TlArticleProjectionOptions α D C) : ∀ (parts : List (ArticlePart α D C)) (partIndex : Nat)
    (message : RichMessage α Photo), HasRows mediaRows partIndex parts →
      ∃ result blocks, articleParts makeTlPhoto mediaRows options partIndex parts message = some result ∧
        result.blocks = message.blocks ++ blocks ∧ PartsShown mediaRows options partIndex parts blocks
  | [],                          _,         message, _     => ⟨message, [], rfl, (append_nil _).symm, rfl⟩
  | .text text entities :: parts, partIndex, message, hrows => by
    by_cases hblank : isBlank text = true
    · obtain ⟨result, blocks, hresult, hblocks, hshown⟩ :=
        articleParts_shown makeTlPhoto mediaRows options parts (partIndex + 1) message hrows
      refine ⟨result, blocks, ?_, hblocks, [], blocks, rfl, ?_, hshown⟩
      · rw [articleParts, if_pos hblank]
        exact hresult
      · rw [PartShown, if_pos hblank]
    · obtain ⟨result, blocks, hresult, hblocks, hshown⟩ := articleParts_shown makeTlPhoto mediaRows options parts
        (partIndex + 1) { message with blocks := message.blocks ++ textBlocks text entities options } hrows
      refine ⟨result, textBlocks text entities options ++ blocks, ?_, ?_, _, blocks, rfl, ?_, hshown⟩
      · rw [articleParts, if_neg hblank]
        exact hresult
      · rw [hblocks, append_assoc]
      · rw [PartShown, if_neg hblank]
        exact textShown text entities options
  | .media media :: parts,        partIndex, message, hrows => by
    obtain ⟨⟨row, hmem, hrow⟩, hrows⟩ := hrows
    rw [articleParts]
    cases hfind : mediaRows.find? (fun row => decide (row.partIndex = partIndex) && decide (row.platformMediaId = media.id)) with
    | none       =>
      have hnone := find?_eq_none.1 hfind row hmem
      rw [Bool.and_eq_true, decide_eq_true_eq, decide_eq_true_eq] at hnone
      exact absurd hrow hnone
    | some found =>
      have hfound := find?_some hfind
      rw [Bool.and_eq_true, decide_eq_true_eq, decide_eq_true_eq] at hfound
      obtain ⟨result, blocks, hresult, hblocks, hshown⟩ := articleParts_shown makeTlPhoto mediaRows options parts
        (partIndex + 1) { blocks := message.blocks ++ [.photo found.id], photos := message.photos ++ [makeTlPhoto found] } hrows
      refine ⟨result, .photo found.id :: blocks, hresult, ?_, [.photo found.id], blocks, rfl,
        ⟨found, mem_of_find?_eq_some hfind, hfound, rfl⟩, hshown⟩
      rw [hblocks, append_assoc]
      rfl
  | .other :: parts,              partIndex, message, hrows => by
    obtain ⟨result, blocks, hresult, hblocks, hshown⟩ :=
      articleParts_shown makeTlPhoto mediaRows options parts (partIndex + 1) message hrows
    exact ⟨result, blocks, hresult, hblocks, [], blocks, rfl, rfl, hshown⟩

end

/-- A picture, `ab` with its first letter bold and its second quoted, and another picture. -/
def smallArticle : List (ArticlePart UInt16 Unit Unit) :=
  [.media ⟨"p", .image, none⟩, .text [97, 98] [⟨.bold, 0, 1⟩, ⟨.blockquote, 1, 1⟩], .media ⟨"q", .image, none⟩]

def smallRows : List IMMediaRow :=
  [⟨1, 7, 0, 0, "p", .image, .null⟩, ⟨2, 7, 1, 2, "q", .image, .null⟩]

end ArticleBlocks
end Crossgram
