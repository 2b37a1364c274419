import Mathlib.Algebra.BigOperators.Group.List.Basic
import Mathlib.Algebra.GroupWithZero.Nat
import Mathlib.Data.List.Forall2
import Mathlib.Data.List.Induction
/-!
# RichText — text with entities, and how paragraphs are joined (packages/bridge/src/rich-message.ts)

A text is a list of code units; an entity covers a stretch of it by offset and length.  `joinRichText` puts two line
breaks between paragraphs and moves their entities along.  It moves the entities of earlier paragraphs once more for
every paragraph that follows, so entities stay on their text exactly when only the last paragraph has any.
-/
namespace Crossgram

open List

/-- A code unit of a text: it can be read, and the program can write one of its own. -/
class TextUnit (α : Type) where
  code : α → UInt16
  lit : UInt16 → α
  code_lit : ∀ u, code (lit u) = u

instance : TextUnit UInt16 := ⟨id, id, fun _ => rfl⟩

inductive EntityKind (α : Type)
  | bold
  | italic
  | underline
  | strike
  | code
  | pre (language : List α)
  | textUrl (url : List α)
  | mentionName (userId : Int)
  | customEmoji (documentId : UInt64)
deriving DecidableEq

structure MessageEntity (α : Type) where
  kind : EntityKind α
  offset : Nat
  length : Nat
deriving DecidableEq

structure RichTextContent (α : Type) where
  text : List α
  entities : List (MessageEntity α)
deriving DecidableEq

namespace RichText

variable {α : Type}

/-- `text.slice(offset, offset + length)` -/
def slice (text : List α) (offset length : Nat) : List α := (text.drop offset).take length

def shiftEntities (entities : List (MessageEntity α)) (delta : Nat) : List (MessageEntity α) :=
  entities.map (fun entity => { entity with offset := entity.offset + delta })

section Join

variable [TextUnit α]

/-- `'\n\n'` -/
def separator : List α := [TextUnit.lit 10, TextUnit.lit 10]

def joinParagraph (joined : List (List α) × List (MessageEntity α)) (paragraph : RichTextContent α) :
    List (List α) × List (MessageEntity α) :=
  let before := if joined.1.isEmpty then joined else (joined.1 ++ [separator], shiftEntities joined.2 2)
  let offset := before.1.flatten.length
  (before.1 ++ [paragraph.text],
    before.2 ++ paragraph.entities.map (fun entity => { entity with offset := entity.offset + offset }))

def joinRichText (paragraphs : List (RichTextContent α)) : RichTextContent α :=
  let joined := paragraphs.foldl joinParagraph ([], [])
  { text := joined.1.flatten, entities := joined.2 }

end Join

/-! ## Where the entities belong -/

def start (paragraphs : List (RichTextContent α)) (i : Nat) : Nat :=
  ((paragraphs.take i).map (fun paragraph => paragraph.text.length + 2)).sum

def inputEntities (paragraphs : List (RichTextContent α)) : List (Nat × MessageEntity α) :=
  paragraphs.zipIdx.flatMap (fun numbered => numbered.1.entities.map (fun entity => (numbered.2, entity)))

structure Covers (paragraphs : List (RichTextContent α)) (joined : RichTextContent α) (out : MessageEntity α)
    (input : Nat × MessageEntity α) : Prop where
  kind : out.kind = input.2.kind
  length : out.length = input.2.length
  offset : out.offset = start paragraphs input.1 + input.2.offset
  substring : ∀ paragraph, paragraphs[input.1]? = some paragraph →
    slice joined.text out.offset out.length = slice paragraph.text input.2.offset input.2.length

/-- **Entities stay on their text**: the texts are joined by two line breaks, and the entities correspond one to one, each
covering what its counterpart covered. -/
structure OnTheirText [TextUnit α] (paragraphs : List (RichTextContent α)) (joined : RichTextContent α) : Prop where
  text : joined.text = List.intercalate separator (paragraphs.map RichTextContent.text)
  entities : ∃ order : List (Nat × MessageEntity α), order.Perm (inputEntities paragraphs) ∧
    List.Forall₂ (Covers paragraphs joined) joined.entities order

/-! ## Appending a paragraph -/

variable {paragraphs : List (RichTextContent α)}

theorem start_append_of_le {i : Nat} (h : i ≤ paragraphs.length)
    (more : List (RichTextContent α)) : start (paragraphs ++ more) i = start paragraphs i := by
  unfold start
  rw [take_append_of_le_length h]

theorem start_append_length (paragraphs : List (RichTextContent α)) (last : RichTextContent α) :
    start (paragraphs ++ [last]) (paragraphs.length + 1) =
      start paragraphs paragraphs.length + (last.text.length + 2) := by
  have hall : (paragraphs ++ [last]).length ≤ paragraphs.length + 1 := Nat.le_of_eq List.length_append
  unfold start
  rw [take_length, take_of_length_le hall, map_append, sum_append]
  rfl

theorem inputEntities_append (paragraphs : List (RichTextContent α)) (last : RichTextContent α) :
    inputEntities (paragraphs ++ [last]) =
      inputEntities paragraphs ++ last.entities.map (fun entity => (paragraphs.length, entity)) := by
  unfold inputEntities
  rw [zipIdx_append, flatMap_append]
  simp

theorem lt_of_mem_inputEntities {x : Nat × MessageEntity α}
    (h : x ∈ inputEntities paragraphs) : ∃ paragraph, paragraphs[x.1]? = some paragraph ∧ x.2 ∈ paragraph.entities := by
  obtain ⟨⟨paragraph, i⟩, hnumbered, hx⟩ := mem_flatMap.1 h
  obtain ⟨entity, hentity, rfl⟩ := mem_map.1 hx
  exact ⟨paragraph, mk_mem_zipIdx_iff_getElem?.1 hnumbered, hentity⟩

theorem mem_inputEntities {i : Nat} {paragraph : RichTextContent α}
    {entity : MessageEntity α} (hi : paragraphs[i]? = some paragraph) (hentity : entity ∈ paragraph.entities) :
    (i, entity) ∈ inputEntities paragraphs :=
  mem_flatMap.2 ⟨(paragraph, i), mk_mem_zipIdx_iff_getElem?.2 hi, List.mem_map_of_mem hentity⟩

theorem intercalate_append_singleton (sep : List α) : ∀ {ls : List (List α)} (l : List α), ls ≠ [] →
    List.intercalate sep (ls ++ [l]) = List.intercalate sep ls ++ sep ++ l
  | [],           _, h => absurd rfl h
  | [x],          l, _ => by
    rw [singleton_append, intercalate_cons_cons, intercalate_singleton, intercalate_singleton]
  | x :: y :: ls, l, _ => by
    have ih : List.intercalate sep ((y :: ls) ++ [l]) = List.intercalate sep (y :: ls) ++ sep ++ l :=
      intercalate_append_singleton sep l (cons_ne_nil y ls)
    rw [cons_append] at ih
    rw [cons_append, cons_append, intercalate_cons_cons, ih, intercalate_cons_cons]
    simp only [append_assoc]

section Join

variable [TextUnit α]

/-! ## What the loop computes -/

def placed (paragraphs : List (RichTextContent α)) (x : Nat × MessageEntity α) : MessageEntity α :=
  { x.2 with offset := start paragraphs x.1 + x.2.offset + 2 * (paragraphs.length - 1 - x.1) }

structure Joined (paragraphs : List (RichTextContent α)) (joined : List (List α) × List (MessageEntity α)) : Prop where
  started : joined.1 = [] ↔ paragraphs = []
  text : joined.1.flatten = List.intercalate separator (paragraphs.map RichTextContent.text)
  length : paragraphs ≠ [] → joined.1.flatten.length + 2 = start paragraphs paragraphs.length
  entities : joined.2 = (inputEntities paragraphs).map (placed paragraphs)

variable {paragraphs : List (RichTextContent α)}

omit [TextUnit α] in
theorem placed_append (last : RichTextContent α) {x : Nat × MessageEntity α}
    (hx : x ∈ inputEntities paragraphs) : placed (paragraphs ++ [last]) x =
      { placed paragraphs x with offset := (placed paragraphs x).offset + 2 } := by
  obtain ⟨_, hi, _⟩ := lt_of_mem_inputEntities hx
  have hlt : x.1 < paragraphs.length := (List.getElem?_eq_some_iff.1 hi).1
  unfold placed
  rw [start_append_of_le (Nat.le_of_lt hlt), List.length_append, List.length_singleton]
  simp only [MessageEntity.mk.injEq, and_true, true_and]
  omega

/-- **One round of the loop**: the texts before are followed by two line breaks and the paragraph. -/
theorem Joined.step {joined : List (List α) × List (MessageEntity α)}
    (h : Joined paragraphs joined) (last : RichTextContent α) :
    Joined (paragraphs ++ [last]) (joinParagraph joined last) := by
  by_cases hnil : paragraphs = []
  · subst hnil
    have hpieces : joined.1 = [] := h.started.2 rfl
    have hentities : joined.2 = [] := h.entities
    have hjoin : joinParagraph joined last = ([last.text], last.entities) := by
      unfold joinParagraph
      rw [hpieces, hentities]
      simp [hpieces, hentities]
    rw [hjoin]
    refine ⟨by simp, ?_, fun _ => ?_, ?_⟩
    · rw [nil_append, map_singleton, intercalate_singleton]
      exact append_nil _
    · simp [start]
    · have hsame : ∀ entity ∈ last.entities, placed ([] ++ [last]) (0, entity) = entity := fun entity _ => by
        simp [placed, start]
      rw [inputEntities_append, map_append, map_map]
      exact ((map_congr_left hsame).trans (map_id _)).symm
  · have hpieces : joined.1 ≠ [] := fun h' => hnil (h.started.1 h')
    have hempty : joined.1.isEmpty = false := by
      cases hc : joined.1 with
      | nil => exact absurd hc hpieces
      | cons => rfl
    have hflat : (joined.1 ++ [separator]).flatten = joined.1.flatten ++ (separator : List α) := by
      rw [flatten_append, flatten_singleton]
    have hlength : (joined.1 ++ [separator]).flatten.length = start paragraphs paragraphs.length := by
      rw [hflat, List.length_append, ← h.length hnil]
      rfl
    have hjoin : joinParagraph joined last = (joined.1 ++ [separator] ++ [last.text], shiftEntities joined.2 2 ++
        last.entities.map (fun entity =>
          { entity with offset := entity.offset + start paragraphs paragraphs.length })) := by
      unfold joinParagraph
      simp only [hempty, Bool.false_eq_true, if_false, hlength]
    rw [hjoin]
    refine ⟨by simp, ?_, fun _ => ?_, ?_⟩
    · rw [flatten_append, hflat, h.text, map_append, map_singleton, flatten_singleton,
        intercalate_append_singleton separator _ (by simpa using hnil)]
    · rw [flatten_append, flatten_singleton, List.length_append, hlength, List.length_append,
        List.length_singleton, start_append_length]
      omega
    · rw [inputEntities_append, map_append, h.entities]
      refine congrArg₂ (fun a b => a ++ b) ?_ ?_
      · unfold shiftEntities
        rw [map_map]
        exact map_congr_left (fun x hx => (placed_append last hx).symm)
      · rw [map_map]
        refine map_congr_left (fun entity _ => ?_)
        simp only [Function.comp_apply, placed, start_append_of_le (Nat.le_refl _), List.length_append,
          List.length_singleton, Nat.add_sub_cancel, Nat.sub_self, Nat.mul_zero, Nat.add_zero,
          MessageEntity.mk.injEq, and_true, true_and]
        omega

theorem joined_foldl (paragraphs : List (RichTextContent α)) :
    Joined paragraphs (paragraphs.foldl joinParagraph ([], [])) := by
  induction paragraphs using List.reverseRecOn with
  | nil => exact ⟨by simp, rfl, fun h => absurd rfl h, rfl⟩
  | append_singleton paragraphs last ih =>
    rw [foldl_append]
    exact ih.step last

theorem joinRichText_text (paragraphs : List (RichTextContent α)) : (joinRichText paragraphs).text =
    List.intercalate separator (paragraphs.map RichTextContent.text) := (joined_foldl paragraphs).text

theorem joinRichText_entities (paragraphs : List (RichTextContent α)) : (joinRichText paragraphs).entities =
    (inputEntities paragraphs).map (placed paragraphs) := (joined_foldl paragraphs).entities

/-! ## When entities stay on their text -/

omit [TextUnit α] in
theorem slice_append_left (front text : List α) (offset length : Nat) :
    slice (front ++ text) (front.length + offset) length = slice text offset length := by
  unfold slice
  rw [← drop_drop, drop_left]

omit [TextUnit α] in
theorem slice_append_right {text : List α} (rest : List α) {offset length : Nat} (h : offset + length ≤ text.length) :
    slice (text ++ rest) offset length = slice text offset length := by
  unfold slice
  rw [drop_append_of_le_length (by omega), take_append_of_le_length (by rw [length_drop]; omega)]

/-- **A paragraph is found at its start** in the joined text. -/
theorem joined_at_start : ∀ {paragraphs : List (RichTextContent α)} {i : Nat} {paragraph : RichTextContent α},
    paragraphs[i]? = some paragraph → ∃ front rest : List α,
      List.intercalate separator (paragraphs.map RichTextContent.text) = front ++ (paragraph.text ++ rest) ∧
      front.length = start paragraphs i := by
  intro paragraphs
  induction paragraphs with
  | nil => intro i paragraph h; simp at h
  | cons first paragraphs ih =>
    intro i paragraph h
    cases i with
    | zero =>
      obtain rfl : first = paragraph := by simpa using h
      cases paragraphs with
      | nil            => exact ⟨[], [], by simp [intercalate_singleton], rfl⟩
      | cons second ps =>
        refine ⟨[], separator ++ List.intercalate separator ((second :: ps).map RichTextContent.text), ?_, rfl⟩
        rw [map_cons, map_cons, intercalate_cons_cons, nil_append, append_assoc]
    | succ i =>
      have hi : paragraphs[i]? = some paragraph := by simpa using h
      obtain ⟨front, rest, hjoined, hlength⟩ := ih hi
      cases paragraphs with
      | nil            => simp at hi
      | cons second ps =>
        refine ⟨first.text ++ separator ++ front, rest, ?_, ?_⟩
        · rw [map_cons, map_cons, intercalate_cons_cons, ← map_cons, hjoined]
          simp only [append_assoc]
        · rw [List.length_append, List.length_append, hlength]
          have htwo : (separator : List α).length = 2 := rfl
          rw [htwo]
          unfold start
          rw [take_succ_cons, map_cons, sum_cons]

omit [TextUnit α] in
theorem sum_map_add (l : List (Nat × MessageEntity α)) (f g : Nat × MessageEntity α → Nat) :
    (l.map (fun x => f x + g x)).sum = (l.map f).sum + (l.map g).sum := by
  induction l with
  | nil => rfl
  | cons x l ih =>
    rw [map_cons, map_cons, map_cons, sum_cons, sum_cons, sum_cons, ih]
    omega

omit [TextUnit α] in
theorem sum_offsets {joined : RichTextContent α} :
    ∀ {out : List (MessageEntity α)} {order : List (Nat × MessageEntity α)},
      List.Forall₂ (Covers paragraphs joined) out order →
      (out.map MessageEntity.offset).sum = (order.map (fun x => start paragraphs x.1 + x.2.offset)).sum
  | [],     [],         _            => rfl
  | _ :: _, _ :: _, .cons h hs => by
    rw [map_cons, map_cons, sum_cons, sum_cons, h.offset, sum_offsets hs]

omit [TextUnit α] in
theorem mem_dropLast_iff {l : List α} {x : α} : x ∈ l.dropLast ↔ ∃ i, i + 1 < l.length ∧ l[i]? = some x := by
  simp only [mem_iff_getElem?, getElem?_dropLast]
  refine exists_congr (fun i => ?_)
  split <;> simp <;> omega

/-- **Joining paragraphs keeps entities on their text exactly when only the last paragraph has entities.** -/
theorem joinRichText_onTheirText_iff (paragraphs : List (RichTextContent α))
    (hinside : ∀ paragraph ∈ paragraphs, ∀ entity ∈ paragraph.entities,
      entity.offset + entity.length ≤ paragraph.text.length) :
    OnTheirText paragraphs (joinRichText paragraphs) ↔ ∀ paragraph ∈ paragraphs.dropLast, paragraph.entities = [] := by
  constructor
  · rintro ⟨-, order, hperm, hcovers⟩ paragraph hparagraph
    obtain ⟨i, hlt, hi⟩ := mem_dropLast_iff.1 hparagraph
    -- what the loop adds to all offsets together is what they are past their places
    have hsum := sum_offsets hcovers
    have hplaces : (order.map (fun x => start paragraphs x.1 + x.2.offset)).sum =
        ((inputEntities paragraphs).map (fun x => start paragraphs x.1 + x.2.offset)).sum := (hperm.map _).sum_eq
    have hall : ((inputEntities paragraphs).map (fun x => 2 * (paragraphs.length - 1 - x.1))).sum = 0 := by
      have hsplit := sum_map_add (inputEntities paragraphs) (fun x => start paragraphs x.1 + x.2.offset)
        (fun x => 2 * (paragraphs.length - 1 - x.1))
      rw [joinRichText_entities, map_map, hplaces] at hsum
      have hout : (inputEntities paragraphs).map (MessageEntity.offset ∘ placed paragraphs) =
          (inputEntities paragraphs).map
            (fun x => start paragraphs x.1 + x.2.offset + 2 * (paragraphs.length - 1 - x.1)) := rfl
      rw [hout] at hsum
      omega
    rcases eq_nil_or_concat paragraph.entities with hnone | ⟨front, entity, hentities⟩
    · exact hnone
    · have hmem : (i, entity) ∈ inputEntities paragraphs := mem_inputEntities hi (by rw [hentities]; simp)
      have hzero : 2 * (paragraphs.length - 1 - i) = 0 :=
        List.sum_eq_zero_iff_forall_eq_nat.1 hall _ (List.mem_map_of_mem hmem)
      omega
  · intro hlast
    refine ⟨joinRichText_text paragraphs, inputEntities paragraphs, .refl _, ?_⟩
    rw [joinRichText_entities, forall₂_map_left_iff, forall₂_same]
    intro x hx
    obtain ⟨paragraph, hi, hentity⟩ := lt_of_mem_inputEntities hx
    have hbound : x.1 < paragraphs.length := (List.getElem?_eq_some_iff.1 hi).1
    have hend : paragraphs.length - 1 - x.1 = 0 := by
      by_contra hne
      have hnone := hlast paragraph (mem_dropLast_iff.2 ⟨x.1, by omega, hi⟩)
      rw [hnone] at hentity
      cases hentity
    have hoffset : (placed paragraphs x).offset = start paragraphs x.1 + x.2.offset := by
      unfold placed
      rw [hend]
      rfl
    refine ⟨rfl, rfl, hoffset, fun paragraph' hi' => ?_⟩
    obtain rfl : paragraph = paragraph' := Option.some.inj (hi.symm.trans hi')
    obtain ⟨front, rest, hjoined, hfront⟩ := joined_at_start hi
    have hlength : (placed paragraphs x).length = x.2.length := rfl
    rw [hoffset, hlength, joinRichText_text, hjoined, ← hfront, slice_append_left,
      slice_append_right rest (hinside paragraph (mem_of_getElem? hi) x.2 hentity)]

end Join

theorem joinRichText_onTheirText_one_bold :
    OnTheirText [⟨[97], []⟩, (⟨[98], [⟨.bold, 0, 1⟩]⟩ : RichTextContent UInt16)]
      (joinRichText [⟨[97], []⟩, ⟨[98], [⟨.bold, 0, 1⟩]⟩]) :=
  (joinRichText_onTheirText_iff [⟨[97], []⟩, ⟨[98], [⟨.bold, 0, 1⟩]⟩] (by decide)).2 (by decide)

/-- A bold `a` and a plain `b`: the entity is moved to the second line break. -/
theorem joinRichText_moves_bold :
    joinRichText [(⟨[97], [⟨.bold, 0, 1⟩]⟩ : RichTextContent UInt16), ⟨[98], []⟩] = ⟨[97, 10, 10, 98], [⟨.bold, 2, 1⟩]⟩ ∧
    ¬ OnTheirText [⟨[97], [⟨.bold, 0, 1⟩]⟩, ⟨[98], []⟩]
      (joinRichText [(⟨[97], [⟨.bold, 0, 1⟩]⟩ : RichTextContent UInt16), ⟨[98], []⟩]) := by
  have hjoin : joinRichText [(⟨[97], [⟨.bold, 0, 1⟩]⟩ : RichTextContent UInt16), ⟨[98], []⟩] =
      ⟨[97, 10, 10, 98], [⟨.bold, 2, 1⟩]⟩ := by decide
  refine ⟨hjoin, ?_⟩
  rw [hjoin]
  rintro ⟨-, order, hperm, hcovers⟩
  have hsum := sum_offsets hcovers
  rw [(hperm.map _).sum_eq] at hsum
  exact absurd hsum (by decide)

end RichText
end Crossgram
