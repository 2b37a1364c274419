import Mathlib.Data.List.Sort
import Crossgram.Lib.Cuts
import Crossgram.Lib.Maps
import Crossgram.InlineMarkdown
/-!
# RichTextTree — text with entities as a tree (packages/bridge/src/rich-message.ts)

`richTextToTl` cuts a text at the boundaries of its entities and wraps every piece in the entities that cover it.  Read
from left to right, the tree is the text.
-/
namespace Crossgram
namespace RichTextTree

open List InlineMarkdown

variable {α : Type}

inductive TypeRichText (α : Type)
  | textPlain (text : List α)
  | textBold (text : TypeRichText α)
  | textItalic (text : TypeRichText α)
  | textUnderline (text : TypeRichText α)
  | textStrike (text : TypeRichText α)
  | textFixed (text : TypeRichText α)
  | textUrl (text : TypeRichText α) (url : List α)
  | textMentionName (text : TypeRichText α) (userId : Int)
  | textCustomEmoji (documentId : UInt64) (alt : List α)
  | textConcat (texts : List (TypeRichText α))

namespace TypeRichText

mutual

def read : TypeRichText α → List α
  | .textPlain text         => text
  | .textBold text          => text.read
  | .textItalic text        => text.read
  | .textUnderline text     => text.read
  | .textStrike text        => text.read
  | .textFixed text         => text.read
  | .textUrl text _         => text.read
  | .textMentionName text _ => text.read
  | .textCustomEmoji _ alt  => alt
  | .textConcat texts       => readAll texts

def readAll : List (TypeRichText α) → List α
  | []            => []
  | text :: texts => text.read ++ readAll texts

end

def plain : TypeRichText α → List α
  | .textPlain text => text
  | _               => []

end TypeRichText

def wrapRichText (text : TypeRichText α) (entity : MessageEntity α) : TypeRichText α :=
  match entity.kind with
  | .bold                   => .textBold text
  | .italic                 => .textItalic text
  | .underline              => .textUnderline text
  | .strike                 => .textStrike text
  | .code                   => .textFixed text
  | .pre _                  => .textFixed text
  | .textUrl url            => .textUrl text url
  | .mentionName userId     => .textMentionName text userId
  | .customEmoji documentId => .textCustomEmoji documentId text.plain

def boundaries (content : RichTextContent α) : List Nat :=
  ((Maps.distinct ([0, content.text.length] ++
      content.entities.flatMap (fun entity => [entity.offset, entity.offset + entity.length]))).filter
    (fun value => decide (value ≤ content.text.length))).insertionSort (· ≤ ·)

def segment (content : RichTextContent α) (start stop : Nat) : TypeRichText α :=
  (content.entities.filter (fun entity => decide (entity.offset ≤ start) && decide (entity.offset + entity.length ≥ stop))).foldl
    wrapRichText (.textPlain (RichText.slice content.text start (stop - start)))

def segments (content : RichTextContent α) : List Nat → List (TypeRichText α)
  | start :: stop :: rest =>
    if start = stop then segments content (stop :: rest) else segment content start stop :: segments content (stop :: rest)
  | _                     => []

def richTextToTl (content : RichTextContent α) : TypeRichText α :=
  if content.entities.isEmpty then .textPlain content.text
  else
    match segments content (boundaries content) with
    | [text] => text
    | texts  => .textConcat texts

def markdownRichText [TextUnit α] (text : List α) : TypeRichText α := richTextToTl (parseInlineMarkdown text)

/-! ## Reading a tree -/

open TypeRichText

theorem read_wrapRichText {entity : MessageEntity α} (hkind : ∀ documentId, entity.kind ≠ .customEmoji documentId)
    (text : TypeRichText α) : (wrapRichText text entity).read = text.read := by
  unfold wrapRichText
  split
  case h_9 documentId heq => exact absurd heq (hkind documentId)
  all_goals rw [TypeRichText.read]

theorem read_foldl_wrap : ∀ (entities : List (MessageEntity α)) (text : TypeRichText α),
    (∀ entity ∈ entities, ∀ documentId, entity.kind ≠ .customEmoji documentId) →
      (entities.foldl wrapRichText text).read = text.read
  | [],                 _,    _     => rfl
  | entity :: entities, text, hkind => by
    rw [foldl_cons, read_foldl_wrap entities _ (fun e he => hkind e (mem_cons_of_mem _ he)),
      read_wrapRichText (hkind entity mem_cons_self)]

variable {content : RichTextContent α}

theorem read_segment
    (hkind : ∀ entity ∈ content.entities, ∀ documentId, entity.kind ≠ .customEmoji documentId) (start stop : Nat) :
    (segment content start stop).read = RichText.slice content.text start (stop - start) := by
  unfold segment
  rw [read_foldl_wrap _ _ (fun entity he => hkind entity (mem_of_mem_filter he)), TypeRichText.read]

theorem slice_append (text : List α) {start middle stop : Nat} (h : start ≤ middle) (h' : middle ≤ stop) :
    RichText.slice text start (middle - start) ++ RichText.slice text middle (stop - middle) =
      RichText.slice text start (stop - start) := by
  unfold RichText.slice
  have hsplit : stop - start = (middle - start) + (stop - middle) := by omega
  rw [hsplit, take_add, drop_drop]
  congr 3
  omega

/-- **The pieces between sorted boundaries** make up the text between the first and the last one. -/
theorem readAll_segments (hkind : ∀ entity ∈ content.entities, ∀ documentId, entity.kind ≠ .customEmoji documentId) :
    ∀ (first : Nat) (rest : List Nat), (first :: rest).Pairwise (· ≤ ·) →
      readAll (segments content (first :: rest)) =
        RichText.slice content.text first ((first :: rest).getLast (cons_ne_nil _ _) - first)
  | first, [],           _       => by
    rw [segments, readAll, getLast_singleton, Nat.sub_self]
    · rfl
    · intro a b c hc
      cases hc
  | first, next :: rest, hsorted => by
    rw [pairwise_cons] at hsorted
    have hle := hsorted.1 next mem_cons_self
    have hlast : (next :: rest).getLast (cons_ne_nil _ _) ∈ next :: rest := getLast_mem _
    have hle' : next ≤ (next :: rest).getLast (cons_ne_nil _ _) := by
      rcases mem_cons.1 hlast with heq | hmem
      · exact Nat.le_of_eq heq.symm
      · exact (pairwise_cons.1 hsorted.2).1 _ hmem
    have ih := readAll_segments hkind next rest hsorted.2
    rw [getLast_cons (cons_ne_nil _ _), segments]
    split
    · rename_i heq
      rw [ih, heq]
    · rw [readAll, ih, read_segment hkind, slice_append content.text hle hle']

theorem mem_boundaries (content : RichTextContent α) (value : Nat) : value ∈ boundaries content ↔
    (value = 0 ∨ value = content.text.length ∨
      ∃ entity ∈ content.entities, value = entity.offset ∨ value = entity.offset + entity.length) ∧
    value ≤ content.text.length := by
  unfold boundaries
  rw [mem_insertionSort, mem_filter, Maps.mem_distinct, decide_eq_true_eq]
  simp

theorem boundaries_cons (content : RichTextContent α) :
    ∃ places, boundaries content = 0 :: places ∧ Cuts.lastPlace 0 places = content.text.length := by
  have hsorted : (boundaries content).Pairwise (· ≤ ·) := pairwise_insertionSort _ _
  exact Cuts.cons_of_bounds hsorted ((mem_boundaries content 0).2 ⟨.inl rfl, Nat.zero_le _⟩)
    ((mem_boundaries content _).2 ⟨.inr (.inl rfl), Nat.le_refl _⟩)
    (fun x hx => ⟨Nat.zero_le x, ((mem_boundaries content x).1 hx).2⟩)

/-- **Read from left to right, the tree is the text.** -/
theorem read_richTextToTl (hkind : ∀ entity ∈ content.entities, ∀ documentId, entity.kind ≠ .customEmoji documentId) :
    (richTextToTl content).read = content.text := by
  unfold richTextToTl
  split
  · rw [TypeRichText.read]
  · have hsorted : (boundaries content).Pairwise (· ≤ ·) := pairwise_insertionSort _ _
    have hall : readAll (segments content (boundaries content)) = content.text := by
      obtain ⟨places, hplaces, hlast⟩ := boundaries_cons content
      rw [hplaces] at hsorted ⊢
      rw [Cuts.lastPlace] at hlast
      rw [readAll_segments hkind 0 places hsorted, hlast]
      unfold RichText.slice
      rw [drop_zero, Nat.sub_zero, take_length]
    split
    · rename_i text heq
      rw [heq, readAll, readAll, append_nil] at hall
      exact hall
    · rw [TypeRichText.read]
      exact hall

/-! ## Inline markdown as a tree -/

def Readable (content : RichTextContent α) : Prop :=
  ∀ entity ∈ content.entities, ∀ documentId, entity.kind ≠ .customEmoji documentId

theorem Readable.wrap (h : Readable content) {kind : EntityKind α}
    (hkind : ∀ documentId, kind ≠ .customEmoji documentId) (offset fullLength : Nat) (inner : List α) :
    Readable (wrapInlineRange content offset fullLength inner kind) := by
  intro entity hentity
  rcases mem_append.1 hentity with hold | hnew
  · obtain ⟨source, hsource, hrebase⟩ := mem_filterMap.1 hold
    unfold rebase at hrebase
    split at hrebase
    · rw [← Option.some.inj hrebase]
      exact h source hsource
    · split at hrebase
      · rw [← Option.some.inj hrebase]
        exact h source hsource
      · cases hrebase
  · rw [mem_singleton.1 hnew]
    exact hkind

variable [TextUnit α]

theorem Readable.applyRule (rule : InlineRule) {kind : EntityKind α} (hkind : ∀ documentId, kind ≠ .customEmoji documentId) :
    ∀ (fuel : Nat) {content : RichTextContent α}, Readable content → Readable (applyRule rule kind fuel content)
  | 0,        _,       h => h
  | fuel + 1, content, h => by
    rw [InlineMarkdown.applyRule]
    split
    · exact h
    · exact Readable.applyRule rule hkind fuel (h.wrap hkind _ _ _)

theorem Readable.applyRules : ∀ (rules : List (InlineRule × EntityKind α)) {content : RichTextContent α},
    (∀ rule ∈ rules, ∀ documentId, rule.2 ≠ .customEmoji documentId) → Readable content →
      Readable (applyRules rules content)
  | [],            _,       _,      h => h
  | rule :: rules, content, hkinds, h =>
    Readable.applyRules rules (fun r hr => hkinds r (mem_cons_of_mem _ hr))
      (h.applyRule rule.1 (hkinds rule mem_cons_self) content.text.length)

theorem readable_parseInlineMarkdown (text : List α) : Readable (parseInlineMarkdown text) := by
  have hkinds : ∀ rule ∈ (INLINE_MARKDOWN : List (InlineRule × EntityKind α)), ∀ documentId,
      rule.2 ≠ .customEmoji documentId := by
    intro rule hrule documentId
    simp only [INLINE_MARKDOWN, mem_cons, not_mem_nil, or_false] at hrule
    rcases hrule with rfl | rfl | rfl | rfl <;> simp
  have hempty : Readable ({ text, entities := [] } : RichTextContent α) := fun _ h => by cases h
  have hrules := Readable.applyRules INLINE_MARKDOWN hkinds hempty
  unfold parseInlineMarkdown applyLink
  split
  · exact hrules
  · exact hrules.wrap (fun _ => by simp) _ _ _

/-- **What a piece of markdown reads as** is what stands in it, less its markers. -/
theorem read_markdownRichText (text : List α) : List.Sublist (markdownRichText text).read text := by
  unfold markdownRichText
  rw [read_richTextToTl (readable_parseInlineMarkdown text)]
  exact (parseInlineMarkdown_keeps text).2.sublist

end RichTextTree
end Crossgram
