import Crossgram.RichText
/-!
# InlineMarkdown — bold, strike, italic, code and a link (packages/bridge/src/rich-message.ts)

`parseInlineMarkdown` applies its rules one behind the other, each until its own pattern matches no more, and then
replaces one link.  Only markers are removed.  A rule's pattern may match again behind a later rule, whose markers
stood between two of its own.
-/
namespace Crossgram
namespace InlineMarkdown

open List

variable {α : Type} [TextUnit α]

structure InlineRule where
  marker : UInt16
  width : Nat

def boldRule : InlineRule := { marker := 42, width := 2 }
def strikeRule : InlineRule := { marker := 126, width := 2 }
def italicRule : InlineRule := { marker := 95, width := 2 }
def codeRule : InlineRule := { marker := 96, width := 1 }

/-- The rules in their order, each with what it makes of its text. -/
def INLINE_MARKDOWN : List (InlineRule × EntityKind α) :=
  [(boldRule, .bold), (strikeRule, .strike), (italicRule, .italic), (codeRule, .code)]

def isUnit (u : UInt16) (a : α) : Bool := decide (TextUnit.code a = u)

/-- `\s` -/
def isSpace (a : α) : Bool :=
  let u := (TextUnit.code a).toNat
  decide (9 ≤ u ∧ u ≤ 13) || decide (u = 32) || decide (u = 160) || decide (u = 5760) || decide (8192 ≤ u ∧ u ≤ 8202) ||
    decide (u = 8232) || decide (u = 8233) || decide (u = 8239) || decide (u = 8287) || decide (u = 12288) ||
    decide (u = 65279)

def beginsWith (units : List UInt16) (text : List α) : Bool := decide ((text.take units.length).map TextUnit.code = units)

def exec {β : Type} (pattern : List α → Option β) : List α → Option (Nat × β)
  | []        => none
  | a :: text =>
    match pattern (a :: text) with
    | some found => some (0, found)
    | none       => (exec pattern text).map (fun found => (found.1 + 1, found.2))

def matchMarks (rule : InlineRule) (text : List α) : Option (List α) :=
  let marks := List.replicate rule.width rule.marker
  let inner := (text.drop rule.width).takeWhile (fun a => !isUnit rule.marker a)
  if beginsWith marks text && !inner.isEmpty && beginsWith marks (text.drop (rule.width + inner.length)) then some inner
  else none

def matchLink (text : List α) : Option (List α × List α) :=
  let label := (text.drop 1).takeWhile (fun a => !isUnit 93 a)
  let target := (text.drop (label.length + 3)).takeWhile (fun a => !isUnit 41 a && !isSpace a)
  if beginsWith [91] text && !label.isEmpty && beginsWith [93, 40] (text.drop (label.length + 1)) && !target.isEmpty &&
      beginsWith [41] (text.drop (label.length + 3 + target.length)) then some (label, target)
  else none

/-- An entity behind the replacement of `fullLength` units at `offset` by `length`: one across a marker is dropped. -/
def rebase (offset fullLength length : Nat) (entity : MessageEntity α) : Option (MessageEntity α) :=
  if entity.offset + entity.length ≤ offset then some entity
  else if entity.offset ≥ offset + fullLength then some { entity with offset := entity.offset + length - fullLength }
  else none

def wrapInlineRange (content : RichTextContent α) (offset fullLength : Nat) (inner : List α) (kind : EntityKind α) :
    RichTextContent α :=
  { text := content.text.take offset ++ inner ++ content.text.drop (offset + fullLength)
    entities := content.entities.filterMap (rebase offset fullLength inner.length) ++
      [{ kind, offset, length := inner.length }] }

/-- The `while` of a rule, for so many rounds. -/
def applyRule (rule : InlineRule) (kind : EntityKind α) : Nat → RichTextContent α → RichTextContent α
  | 0,        content => content
  | fuel + 1, content =>
    match exec (matchMarks rule) content.text with
    | none                 => content
    | some (offset, inner) =>
      applyRule rule kind fuel (wrapInlineRange content offset (inner.length + 2 * rule.width) inner kind)

def applyRules (rules : List (InlineRule × EntityKind α)) (content : RichTextContent α) : RichTextContent α :=
  rules.foldl (fun content rule => applyRule rule.1 rule.2 content.text.length content) content

def applyLink (content : RichTextContent α) : RichTextContent α :=
  match exec matchLink content.text with
  | none                           => content
  | some (offset, (label, target)) =>
    wrapInlineRange content offset (label.length + target.length + 4) label (.textUrl target)

def parseInlineMarkdown (text : List α) : RichTextContent α :=
  applyLink (applyRules INLINE_MARKDOWN { text, entities := [] })

/-! ## Patterns -/

def HasMarks (rule : InlineRule) (text : List α) : Prop :=
  ∃ before opening inner closing after, text = before ++ (opening ++ (inner ++ (closing ++ after))) ∧
    opening.map TextUnit.code = List.replicate rule.width rule.marker ∧
    closing.map TextUnit.code = List.replicate rule.width rule.marker ∧
    inner ≠ [] ∧ ∀ a ∈ inner, TextUnit.code a ≠ rule.marker

variable {units : List UInt16} {text : List α}

theorem beginsWith_iff :
    beginsWith units text = true ↔ ∃ front rest, text = front ++ rest ∧ front.map TextUnit.code = units := by
  unfold beginsWith
  rw [decide_eq_true_eq]
  constructor
  · intro h
    exact ⟨text.take units.length, text.drop units.length, (take_append_drop _ _).symm, h⟩
  · rintro ⟨front, rest, rfl, rfl⟩
    rw [length_map, take_left]

omit [TextUnit α] in
theorem takeWhile_of_next {p : α → Bool} {inner rest : List α} (hinner : ∀ a ∈ inner, p a = true)
    (hrest : ∀ a, rest.head? = some a → p a = false) : (inner ++ rest).takeWhile p = inner := by
  rw [takeWhile_append_of_pos hinner]
  cases rest with
  | nil         => rw [takeWhile_nil, append_nil]
  | cons a rest => rw [takeWhile_cons_of_neg (by simp [hrest a rfl]), append_nil]

theorem head_of_units {u : UInt16} {closing rest : List α}
    (hclosing : closing.map TextUnit.code = u :: units) {a : α} (ha : (closing ++ rest).head? = some a) :
    TextUnit.code a = u := by
  cases closing with
  | nil            => cases hclosing
  | cons b closing =>
    cases ha
    exact (List.cons.inj hclosing).1

omit [TextUnit α] in
theorem takeWhile_split (p : α → Bool) (text : List α) :
    text = text.takeWhile p ++ text.drop (text.takeWhile p).length ∧ ∀ a ∈ text.takeWhile p, p a = true := by
  have hsplit : text.takeWhile p ++ text.dropWhile p = text := takeWhile_append_dropWhile
  have hdrop : (text.takeWhile p ++ text.dropWhile p).drop (text.takeWhile p).length = text.dropWhile p := drop_left
  rw [hsplit] at hdrop
  rw [hdrop, hsplit]
  exact ⟨rfl, all_eq_true.1 all_takeWhile⟩

theorem length_of_codes {opening : List α} (h : opening.map TextUnit.code = units) :
    opening.length = units.length := by
  rw [← h, length_map]

variable {rule : InlineRule}

theorem matchMarks_iff (hwidth : 0 < rule.width) {text inner : List α} :
    matchMarks rule text = some inner ↔ ∃ opening closing after, text = opening ++ (inner ++ (closing ++ after)) ∧
      opening.map TextUnit.code = List.replicate rule.width rule.marker ∧
      closing.map TextUnit.code = List.replicate rule.width rule.marker ∧
      inner ≠ [] ∧ ∀ a ∈ inner, TextUnit.code a ≠ rule.marker := by
  unfold matchMarks
  dsimp only
  constructor
  · intro h
    split at h
    · rename_i hmatch
      cases h
      rw [Bool.and_eq_true, Bool.and_eq_true, beginsWith_iff, beginsWith_iff, Bool.not_eq_true',
        isEmpty_eq_false_iff] at hmatch
      obtain ⟨⟨⟨opening, rest, hopened, hopening⟩, hinner⟩, closing, after, hclosed, hclosing⟩ := hmatch
      have hlength : opening.length = rule.width := by rw [length_of_codes hopening, length_replicate]
      have hrest : text.drop rule.width = rest := by rw [hopened, ← hlength, drop_left]
      obtain ⟨hspan, hfree⟩ := takeWhile_split (fun a => !isUnit rule.marker a) (text.drop rule.width)
      rw [← drop_drop] at hclosed
      rw [hclosed] at hspan
      refine ⟨opening, closing, after, ?_, hopening, hclosing, hinner, fun a ha => ?_⟩
      · rw [← hspan, hrest]
        exact hopened
      · simpa [isUnit] using hfree a ha
    · cases h
  · rintro ⟨opening, closing, after, rfl, hopening, hclosing, hinner, hfree⟩
    have hlength : opening.length = rule.width := by rw [length_of_codes hopening, length_replicate]
    have htaken : ((opening ++ (inner ++ (closing ++ after))).drop rule.width).takeWhile (fun a => !isUnit rule.marker a) =
        inner := by
      rw [← hlength, drop_left]
      refine takeWhile_of_next (fun a ha => by simpa [isUnit] using hfree a ha) (fun a ha => ?_)
      obtain ⟨width, hsucc⟩ := Nat.exists_eq_succ_of_ne_zero (Nat.pos_iff_ne_zero.1 hwidth)
      rw [hsucc, replicate_succ] at hclosing
      simp [isUnit, head_of_units hclosing ha]
    have hrest : (opening ++ (inner ++ (closing ++ after))).drop (rule.width + inner.length) = closing ++ after := by
      rw [← drop_drop, ← hlength, drop_left, drop_left]
    rw [htaken, hrest, if_pos]
    rw [Bool.and_eq_true, Bool.and_eq_true, beginsWith_iff, beginsWith_iff, Bool.not_eq_true', isEmpty_eq_false_iff]
    exact ⟨⟨⟨opening, _, rfl, hopening⟩, hinner⟩, closing, after, rfl, hclosing⟩

theorem matchLink_some {text label target : List α} (h : matchLink text = some (label, target)) :
    ∃ opening middle closing after, text = opening ++ (label ++ (middle ++ (target ++ (closing ++ after)))) ∧
      opening.map TextUnit.code = [91] ∧ middle.map TextUnit.code = [93, 40] ∧ closing.map TextUnit.code = [41] ∧
      label ≠ [] := by
  unfold matchLink at h
  dsimp only at h
  split at h
  · rename_i hmatch
    cases h
    rw [Bool.and_eq_true, Bool.and_eq_true, Bool.and_eq_true, Bool.and_eq_true, beginsWith_iff, beginsWith_iff,
      beginsWith_iff, Bool.not_eq_true', isEmpty_eq_false_iff] at hmatch
    obtain ⟨⟨⟨⟨⟨opening, rest, hopened, hopening⟩, hlabel⟩, middle, rest', hmid, hmiddle⟩, _⟩, closing, after, hclosed,
      hclosing⟩ := hmatch
    have hrest : text.drop 1 = rest := by
      rw [hopened, show (1 : Nat) = opening.length by rw [length_of_codes hopening]; rfl, drop_left]
    obtain ⟨hspan, _⟩ := takeWhile_split (fun a => !isUnit 93 a) (text.drop 1)
    generalize (text.drop 1).takeWhile (fun a => !isUnit 93 a) = label at *
    have hafter : (text.drop 1).drop label.length = middle ++ rest' := by
      rw [drop_drop, Nat.add_comm, hmid]
    have htarget : text.drop (label.length + 3) = rest' := by
      rw [show label.length + 3 = 1 + label.length + 2 by omega, ← drop_drop, ← drop_drop, hafter,
        show (2 : Nat) = middle.length by rw [length_of_codes hmiddle]; rfl, drop_left]
    obtain ⟨hspan', _⟩ := takeWhile_split (fun a => !isUnit 41 a && !isSpace a) (text.drop (label.length + 3))
    generalize (text.drop (label.length + 3)).takeWhile (fun a => !isUnit 41 a && !isSpace a) = target at *
    have hend : (text.drop (label.length + 3)).drop target.length = closing ++ after := by
      rw [drop_drop, hclosed]
    refine ⟨opening, middle, closing, after, ?_, hopening, hmiddle, hclosing, hlabel⟩
    rw [← hend, ← hspan', htarget, ← hafter, ← hspan, hrest]
    exact hopened
  · cases h

omit [TextUnit α] in
theorem exec_some {β : Type} {pattern : List α → Option β} {found : β} : ∀ {text : List α} {offset : Nat},
    exec pattern text = some (offset, found) →
      ∃ before rest, text = before ++ rest ∧ before.length = offset ∧ pattern rest = some found
  | [],        _, h => by cases h
  | a :: text, _, h => by
    rw [exec] at h
    split at h
    · rename_i found' hfound
      cases h
      exact ⟨[], a :: text, rfl, rfl, hfound⟩
    · obtain ⟨⟨offset, found'⟩, hrest, hpair⟩ := Option.map_eq_some_iff.1 h
      cases hpair
      obtain ⟨before, rest, hsplit, hlength, hmatch⟩ := exec_some hrest
      exact ⟨a :: before, rest, by rw [hsplit]; rfl, by rw [length_cons, hlength], hmatch⟩

omit [TextUnit α] in
theorem exec_none {β : Type} {pattern : List α → Option β} : ∀ {text : List α}, exec pattern text = none →
    ∀ before a rest, text = before ++ a :: rest → pattern (a :: rest) = none
  | [],        _, before, a, rest, hsplit => by simp at hsplit
  | b :: text, h, before, a, rest, hsplit => by
    rw [exec] at h
    split at h
    · cases h
    · rename_i hnone
      cases before with
      | nil              =>
        cases hsplit
        exact hnone
      | cons b' before =>
        cases hsplit
        exact exec_none (Option.map_eq_none_iff.1 h) before a rest rfl

theorem exec_marks_none_iff (hwidth : 0 < rule.width) :
    exec (matchMarks rule) text = none ↔ ¬ HasMarks rule text := by
  constructor
  · rintro h ⟨before, opening, inner, closing, after, hsplit, hopening, hclosing, hinner, hfree⟩
    have hsome : matchMarks rule (opening ++ (inner ++ (closing ++ after))) = some inner :=
      (matchMarks_iff hwidth).2 ⟨opening, closing, after, rfl, hopening, hclosing, hinner, hfree⟩
    cases opening with
    | nil            =>
      rw [map_nil] at hopening
      have := congrArg List.length hopening
      rw [length_nil, length_replicate] at this
      omega
    | cons a opening =>
      rw [cons_append] at hsome hsplit
      have hnone := exec_none h before a _ hsplit
      rw [hsome] at hnone
      cases hnone
  · intro hno
    cases hexec : exec (matchMarks rule) text with
    | none       => rfl
    | some found =>
      obtain ⟨before, rest, hsplit, _, hmatch⟩ := exec_some hexec
      obtain ⟨opening, closing, after, hrest, hmarks⟩ := (matchMarks_iff hwidth).1 hmatch
      exact absurd ⟨before, opening, found.2, closing, after, by rw [hsplit, hrest], hmarks⟩ hno

/-! ## A replacement -/

theorem exec_marks_some (hwidth : 0 < rule.width) {text inner : List α} {offset : Nat}
    (h : exec (matchMarks rule) text = some (offset, inner)) : ∃ before opening closing after,
      text = before ++ (opening ++ (inner ++ (closing ++ after))) ∧ before.length = offset ∧
      opening.map TextUnit.code = List.replicate rule.width rule.marker ∧
      closing.map TextUnit.code = List.replicate rule.width rule.marker ∧
      inner ≠ [] ∧ ∀ a ∈ inner, TextUnit.code a ≠ rule.marker := by
  obtain ⟨before, rest, hsplit, hlength, hmatch⟩ := exec_some h
  obtain ⟨opening, closing, after, hrest, hmarks⟩ := (matchMarks_iff hwidth).1 hmatch
  exact ⟨before, opening, closing, after, by rw [hsplit, hrest], hlength, hmarks⟩

variable {content : RichTextContent α} {before opening inner closing after : List α}

omit [TextUnit α] in
theorem wrapInlineRange_text
    (hsplit : content.text = before ++ (opening ++ (inner ++ (closing ++ after)))) {fullLength : Nat}
    (hfull : fullLength = opening.length + inner.length + closing.length) (kind : EntityKind α) :
    (wrapInlineRange content before.length fullLength inner kind).text = before ++ (inner ++ after) := by
  unfold wrapInlineRange
  dsimp only
  have hdrop : content.text.drop (before.length + fullLength) = after := by
    rw [hfull, hsplit, ← drop_drop, drop_left, Nat.add_assoc, ← drop_drop, drop_left, ← drop_drop,
      drop_left, drop_left]
  rw [hdrop, hsplit, take_left, append_assoc]

def ValidEntities (content : RichTextContent α) : Prop :=
  ∀ entity ∈ content.entities, 0 < entity.length ∧ entity.offset + entity.length ≤ content.text.length

omit [TextUnit α] in
/-- **A replacement keeps the entities valid.** -/
theorem ValidEntities.wrap (h : ValidEntities content)
    (hsplit : content.text = before ++ (opening ++ (inner ++ (closing ++ after)))) (hinner : inner ≠ []) {fullLength : Nat}
    (hfull : fullLength = opening.length + inner.length + closing.length) (kind : EntityKind α) :
    ValidEntities (wrapInlineRange content before.length fullLength inner kind) := by
  have hlength : (wrapInlineRange content before.length fullLength inner kind).text.length =
      before.length + (inner.length + after.length) := by
    rw [wrapInlineRange_text hsplit hfull, length_append, length_append]
  have hall : content.text.length = before.length + (fullLength + after.length) := by
    rw [hsplit, hfull]
    simp only [length_append]
    omega
  intro entity hentity
  rw [hlength]
  rcases mem_append.1 hentity with hold | hnew
  · obtain ⟨source, hsource, hrebase⟩ := mem_filterMap.1 hold
    obtain ⟨hpos, hbound⟩ := h source hsource
    unfold rebase at hrebase
    split at hrebase
    · cases hrebase
      exact ⟨hpos, by omega⟩
    · split at hrebase
      · cases hrebase
        refine ⟨hpos, ?_⟩
        dsimp only
        omega
      · cases hrebase
  · rw [mem_singleton] at hnew
    subst hnew
    exact ⟨length_pos_iff.2 hinner, by dsimp only; omega⟩

inductive Markers : List α → List α → Prop
  | rule {rule : InlineRule} {opening closing : List α} (hrule : rule ∈ [boldRule, strikeRule, italicRule, codeRule])
    (hopening : opening.map TextUnit.code = List.replicate rule.width rule.marker)
    (hclosing : closing.map TextUnit.code = List.replicate rule.width rule.marker) : Markers opening closing
  | link {opening middle target closing : List α} (hopening : opening.map TextUnit.code = [91])
    (hmiddle : middle.map TextUnit.code = [93, 40]) (hclosing : closing.map TextUnit.code = [41]) :
    Markers opening (middle ++ (target ++ closing))

/-- **Removing markers is all that happens** from the first text to the second one. -/
inductive MarkersRemoved (text : List α) : List α → Prop
  | refl : MarkersRemoved text text
  | step {before opening inner closing after : List α}
    (h : MarkersRemoved text (before ++ (opening ++ (inner ++ (closing ++ after))))) (hmarkers : Markers opening closing)
    (hinner : inner ≠ []) : MarkersRemoved text (before ++ (inner ++ after))

theorem MarkersRemoved.trans {text text' text'' : List α} (h : MarkersRemoved text text')
    (h' : MarkersRemoved text' text'') : MarkersRemoved text text'' := by
  induction h' with
  | refl                        => exact h
  | step _ hmarkers hinner ih => exact .step ih hmarkers hinner

theorem MarkersRemoved.sublist {text text' : List α} (h : MarkersRemoved text text') : List.Sublist text' text := by
  induction h with
  | refl                        => exact List.Sublist.refl _
  | step _ hmarkers hinner ih =>
    refine List.Sublist.trans ?_ ih
    refine List.Sublist.append_left ?_ _
    refine List.Sublist.trans ?_ (sublist_append_right _ _)
    exact List.Sublist.append_left (sublist_append_right _ _) _

/-! ## The loop of a rule -/

/-- **A round of a rule**: its leftmost match is replaced, and the text gets shorter. -/
theorem applyRule_succ (hwidth : 0 < rule.width) (kind : EntityKind α) (fuel : Nat)
    (content : RichTextContent α) :
    (¬ HasMarks rule content.text ∧ applyRule rule kind (fuel + 1) content = content) ∨
      ∃ before opening inner closing after, content.text = before ++ (opening ++ (inner ++ (closing ++ after))) ∧
        opening.map TextUnit.code = List.replicate rule.width rule.marker ∧
        closing.map TextUnit.code = List.replicate rule.width rule.marker ∧
        inner ≠ [] ∧ (∀ a ∈ inner, TextUnit.code a ≠ rule.marker) ∧
        exec (matchMarks rule) content.text = some (before.length, inner) ∧
        applyRule rule kind (fuel + 1) content =
          applyRule rule kind fuel (wrapInlineRange content before.length (inner.length + 2 * rule.width) inner kind) := by
  cases hexec : exec (matchMarks rule) content.text with
  | none       =>
    left
    refine ⟨(exec_marks_none_iff hwidth).1 hexec, ?_⟩
    rw [applyRule, hexec]
  | some found =>
    right
    obtain ⟨offset, inner⟩ := found
    obtain ⟨before, opening, closing, after, hsplit, rfl, hopening, hclosing, hinner, hfree⟩ := exec_marks_some hwidth hexec
    refine ⟨before, opening, inner, closing, after, hsplit, hopening, hclosing, hinner, hfree, rfl, ?_⟩
    rw [applyRule, hexec]

theorem fullLength_eq {opening : List α} (inner : List α) {closing : List α}
    (hopening : opening.map TextUnit.code = List.replicate rule.width rule.marker)
    (hclosing : closing.map TextUnit.code = List.replicate rule.width rule.marker) :
    inner.length + 2 * rule.width = opening.length + inner.length + closing.length := by
  rw [length_of_codes hopening, length_of_codes hclosing, length_replicate]
  omega

/-- **The loop of a rule ends**: as many rounds as the text has units are enough, more make no difference, and then its
pattern does not match any more. -/
theorem applyRule_done (hwidth : 0 < rule.width) (kind : EntityKind α) : ∀ (fuel : Nat)
    (content : RichTextContent α), content.text.length ≤ fuel →
      ¬ HasMarks rule (applyRule rule kind fuel content).text ∧
        ∀ more, applyRule rule kind (fuel + more) content = applyRule rule kind fuel content
  | 0,        content, hfuel => by
    have hempty : content.text = [] := length_eq_zero_iff.1 (Nat.le_zero.1 hfuel)
    have hno : ¬ HasMarks rule content.text := by
      rintro ⟨before, opening, inner, closing, after, hsplit, _, _, hinner, _⟩
      rw [hempty] at hsplit
      simp [hinner] at hsplit
    refine ⟨hno, fun more => ?_⟩
    cases more with
    | zero      => rfl
    | succ more =>
      have hexec := (exec_marks_none_iff hwidth).2 hno
      rw [Nat.zero_add]
      show applyRule rule kind (more + 1) content = content
      rw [applyRule, hexec]
  | fuel + 1, content, hfuel => by
    rcases applyRule_succ hwidth kind fuel content with ⟨hno, hsame⟩ |
      ⟨before, opening, inner, closing, after, hsplit, hopening, hclosing, hinner, hfree, hexec, hround⟩
    · refine ⟨by rw [hsame]; exact hno, fun more => ?_⟩
      rw [hsame, Nat.add_right_comm, applyRule, (exec_marks_none_iff hwidth).2 hno]
    · have hfull := fullLength_eq inner hopening hclosing
      have hshort : (wrapInlineRange content before.length (inner.length + 2 * rule.width) inner kind).text.length ≤ fuel := by
        have hlength := congrArg List.length hsplit
        have hopened := length_of_codes hopening
        rw [wrapInlineRange_text hsplit hfull]
        simp only [length_append, length_replicate] at hlength hopened ⊢
        omega
      obtain ⟨hdone, hmore⟩ := applyRule_done hwidth kind fuel _ hshort
      refine ⟨by rw [hround]; exact hdone, fun more => ?_⟩
      rw [hround, ← hmore more, Nat.add_right_comm, applyRule, hexec]

theorem applyRule_keeps (hrule : rule ∈ [boldRule, strikeRule, italicRule, codeRule])
    (hwidth : 0 < rule.width) (kind : EntityKind α) : ∀ (fuel : Nat) (content : RichTextContent α),
      ValidEntities content → ValidEntities (applyRule rule kind fuel content) ∧
        MarkersRemoved content.text (applyRule rule kind fuel content).text
  | 0,        content, hvalid => ⟨hvalid, .refl⟩
  | fuel + 1, content, hvalid => by
    rcases applyRule_succ hwidth kind fuel content with ⟨_, hsame⟩ |
      ⟨before, opening, inner, closing, after, hsplit, hopening, hclosing, hinner, hfree, _, hround⟩
    · rw [hsame]
      exact ⟨hvalid, .refl⟩
    · have hfull := fullLength_eq inner hopening hclosing
      obtain ⟨hvalid', hremoved⟩ := applyRule_keeps hrule hwidth kind fuel _ (hvalid.wrap hsplit hinner hfull kind)
      rw [hround]
      refine ⟨hvalid', MarkersRemoved.trans ?_ hremoved⟩
      rw [wrapInlineRange_text hsplit hfull]
      refine .step ?_ (.rule hrule hopening hclosing) hinner
      rw [← hsplit]
      exact .refl

/-! ## Markers that come together -/

def joins (marker : UInt16) (before after : List α) : Bool :=
  before.getLast?.any (isUnit marker) && after.head?.any (isUnit marker)

def roundJoins (marker : UInt16) (before inner after : List α) : Bool := joins marker before inner || joins marker inner after

def loopJoins (marker : UInt16) (rule : InlineRule) : Nat → List α → Bool
  | 0,        _    => false
  | fuel + 1, text =>
    match exec (matchMarks rule) text with
    | none                 => false
    | some (offset, inner) =>
      let after := text.drop (offset + (inner.length + 2 * rule.width))
      roundJoins marker (text.take offset) inner after ||
        loopJoins marker rule fuel (text.take offset ++ inner ++ after)

def linkJoins (marker : UInt16) (text : List α) : Bool :=
  match exec matchLink text with
  | none                           => false
  | some (offset, (label, target)) =>
    roundJoins marker (text.take offset) label (text.drop (offset + (label.length + target.length + 4))) ||
      target.any (isUnit marker)

def laterJoins (marker : UInt16) : List (InlineRule × EntityKind α) → RichTextContent α → Bool
  | [],            content => linkJoins marker content.text
  | rule :: rules, content =>
    loopJoins marker rule.1 content.text.length content.text ||
      laterJoins marker rules (applyRule rule.1 rule.2 content.text.length content)

theorem joins_of_codes {marker : UInt16} {n : Nat} (before : List α) {front back : List α} (after : List α)
    (hcodes : (front ++ back).map TextUnit.code = List.replicate n marker) (hfront : front ≠ []) (hback : back ≠ []) :
    joins marker (before ++ front) (back ++ after) = true := by
  have hunit : ∀ a ∈ front ++ back, TextUnit.code a = marker := by
    intro a ha
    have hmem := mem_map_of_mem (f := TextUnit.code) ha
    rw [hcodes] at hmem
    exact eq_of_mem_replicate hmem
  obtain ⟨front, last, rfl⟩ := eq_nil_or_concat' front |>.resolve_left hfront
  obtain ⟨first, back, rfl⟩ := exists_cons_of_ne_nil hback
  have hlast := hunit last (by simp)
  have hfirst := hunit first (by simp)
  rw [joins, ← append_assoc, getLast?_concat, cons_append, head?_cons]
  simp [isUnit, hlast, hfirst]

/-- **Putting other units into a text keeps its matches**, unless it parts two markers. -/
theorem HasMarks.insert {before after units : List α} (h : HasMarks rule (before ++ after))
    (hjoins : joins rule.marker before after = false) (hfree : ∀ a ∈ units, TextUnit.code a ≠ rule.marker) :
    HasMarks rule (before ++ (units ++ after)) := by
  obtain ⟨start, opening, inner, closing, rest, hsplit, hopening, hclosing, hinner, hclean⟩ := h
  rcases append_eq_append_iff.1 hsplit with ⟨start', rfl, hafter⟩ | ⟨later, rfl, hlater⟩
  · -- in front of the match
    refine ⟨before ++ (units ++ start'), opening, inner, closing, rest, ?_, hopening, hclosing, hinner, hclean⟩
    rw [hafter]
    simp only [append_assoc]
  · rcases append_eq_append_iff.1 hlater with ⟨front, rfl, hfront⟩ | ⟨back, rfl, hback⟩
    · rcases append_eq_append_iff.1 hfront with ⟨closed, rfl, hclosed⟩ | ⟨back, rfl, hback⟩
      · rcases append_eq_append_iff.1 hclosed with ⟨tail, rfl, htail⟩ | ⟨back, rfl, hback⟩
        · -- behind the match
          refine ⟨start, opening, inner, closing, tail ++ (units ++ after), ?_, hopening, hclosing, hinner, hclean⟩
          simp only [append_assoc]
        · -- among the closing markers
          by_cases hclosed : closed = []
          · refine ⟨start, opening, inner ++ units, back, rest, ?_, hopening, by simpa [hclosed] using hclosing, ?_, ?_⟩
            · rw [hback, hclosed]
              simp only [append_assoc, append_nil]
            · simp [hinner]
            · intro a ha
              rcases mem_append.1 ha with ha | ha
              · exact hclean a ha
              · exact hfree a ha
          · by_cases hnil : back = []
            · refine ⟨start, opening, inner, closed, units ++ rest, ?_, hopening, by simpa [hnil] using hclosing, hinner,
                hclean⟩
              rw [hback, hnil]
              simp only [append_assoc, nil_append]
            · have hmet := joins_of_codes (start ++ (opening ++ inner)) rest hclosing hclosed hnil
              rw [← hback] at hmet
              simp only [append_assoc] at hmet hjoins
              rw [hmet] at hjoins
              cases hjoins
      · -- among what stands between the markers
        refine ⟨start, opening, front ++ (units ++ back), closing, rest, ?_, hopening, hclosing, ?_, ?_⟩
        · rw [hback]
          simp only [append_assoc]
        · intro hnil
          rw [append_eq_nil_iff, append_eq_nil_iff] at hnil
          exact hinner (append_eq_nil_iff.2 ⟨hnil.1, hnil.2.2⟩)
        · intro a ha
          rcases mem_append.1 ha with ha | ha
          · exact hclean a (mem_append_left _ ha)
          · rcases mem_append.1 ha with ha | ha
            · exact hfree a ha
            · exact hclean a (mem_append_right _ ha)
    · -- among the opening markers
      by_cases hopened : later = []
      · refine ⟨start ++ units, back, inner, closing, rest, ?_, by simpa [hopened] using hopening, hclosing, hinner, hclean⟩
        rw [hback, hopened]
        simp only [append_assoc, append_nil]
      · by_cases hnil : back = []
        · refine ⟨start, later, units ++ inner, closing, rest, ?_, by simpa [hnil] using hopening, hclosing, ?_, ?_⟩
          · rw [hback, hnil]
            simp only [append_assoc, nil_append]
          · simp [hinner]
          · intro a ha
            rcases mem_append.1 ha with ha | ha
            · exact hfree a ha
            · exact hclean a ha
        · have hmet := joins_of_codes start (inner ++ (closing ++ rest)) hopening hopened hnil
          rw [← hback] at hmet
          rw [hmet] at hjoins
          cases hjoins

/-- **A replacement that brings no two markers of a pattern together makes no match of it.** -/
theorem hasMarks_of_replaced
    (h : HasMarks rule (before ++ (inner ++ after))) (hinner : inner ≠ [])
    (hjoins : roundJoins rule.marker before inner after = false) (hopening : ∀ a ∈ opening, TextUnit.code a ≠ rule.marker)
    (hclosing : ∀ a ∈ closing, TextUnit.code a ≠ rule.marker) :
    HasMarks rule (before ++ (opening ++ (inner ++ (closing ++ after)))) := by
  obtain ⟨hfirst, hsecond⟩ : joins rule.marker before inner = false ∧ joins rule.marker inner after = false := by
    rw [roundJoins, Bool.or_eq_false_iff] at hjoins
    exact hjoins
  have hlast : joins rule.marker (before ++ inner) after = false := by
    unfold joins at hsecond ⊢
    rw [getLast?_append_of_ne_nil _ hinner]
    exact hsecond
  have hhead : joins rule.marker before (inner ++ (closing ++ after)) = false := by
    unfold joins at hfirst ⊢
    rw [head?_append_of_ne_nil _ hinner]
    exact hfirst
  have hclosed : HasMarks rule ((before ++ inner) ++ (closing ++ after)) := by
    rw [← append_assoc] at h
    exact h.insert hlast hclosing
  rw [append_assoc] at hclosed
  exact hclosed.insert hhead hopening

theorem code_ne_of_codes {units : List α} {codes : List UInt16} (h : units.map TextUnit.code = codes) {marker : UInt16}
    (hmarker : marker ∉ codes) : ∀ a ∈ units, TextUnit.code a ≠ marker := by
  rintro a ha rfl
  exact hmarker (h ▸ mem_map_of_mem ha)

theorem hasMarks_of_loop {rule other : InlineRule} (hwidth : 0 < other.width) (hother : other.marker ≠ rule.marker)
    (kind : EntityKind α) : ∀ (fuel : Nat) (content : RichTextContent α),
      loopJoins rule.marker other fuel content.text = false → HasMarks rule (applyRule other kind fuel content).text →
      HasMarks rule content.text
  | 0,        _,       _,      h => h
  | fuel + 1, content, hjoins, h => by
    rcases applyRule_succ hwidth kind fuel content with ⟨_, hsame⟩ |
      ⟨before, opening, inner, closing, after, hsplit, hopening, hclosing, hinner, hfree, hexec, hround⟩
    · rwa [hsame] at h
    · have hfull := fullLength_eq inner hopening hclosing
      have htext := wrapInlineRange_text hsplit hfull kind
      have htake : content.text.take before.length = before := by rw [hsplit, take_left]
      have hdrop : content.text.drop (before.length + (inner.length + 2 * other.width)) = after := by
        rw [hfull, hsplit, ← drop_drop, drop_left, Nat.add_assoc, ← drop_drop, drop_left,
          ← drop_drop, drop_left, drop_left]
      rw [loopJoins, hexec] at hjoins
      dsimp only at hjoins
      rw [htake, hdrop, Bool.or_eq_false_iff, append_assoc, ← htext] at hjoins
      have hno : rule.marker ∉ List.replicate other.width other.marker := by
        intro hmem
        exact hother (eq_of_mem_replicate hmem).symm
      rw [hround] at h
      have hreplaced := hasMarks_of_loop hwidth hother kind fuel _ hjoins.2 h
      rw [htext] at hreplaced
      rw [hsplit]
      exact hasMarks_of_replaced hreplaced hinner hjoins.1 (code_ne_of_codes hopening hno) (code_ne_of_codes hclosing hno)

/-! ## The link -/

theorem applyLink_cases (content : RichTextContent α) :
    (exec matchLink content.text = none ∧ applyLink content = content) ∨
      ∃ before opening label middle target closing after,
        content.text = before ++ (opening ++ (label ++ ((middle ++ (target ++ closing)) ++ after))) ∧
        opening.map TextUnit.code = [91] ∧ middle.map TextUnit.code = [93, 40] ∧ closing.map TextUnit.code = [41] ∧
        label ≠ [] ∧ exec matchLink content.text = some (before.length, (label, target)) ∧
        applyLink content = wrapInlineRange content before.length (label.length + target.length + 4) label
          (.textUrl target) := by
  cases hexec : exec matchLink content.text with
  | none       =>
    left
    refine ⟨rfl, ?_⟩
    rw [applyLink, hexec]
  | some found =>
    right
    obtain ⟨offset, label, target⟩ := found
    obtain ⟨before, rest, hsplit, rfl, hmatch⟩ := exec_some hexec
    obtain ⟨opening, middle, closing, after, hrest, hopening, hmiddle, hclosing, hlabel⟩ := matchLink_some hmatch
    refine ⟨before, opening, label, middle, target, closing, after, ?_, hopening, hmiddle, hclosing, hlabel, rfl, ?_⟩
    · rw [hsplit, hrest]
      simp only [append_assoc]
    · rw [applyLink, hexec]

theorem linkLength_eq {opening middle closing : List α} (label target : List α) (hopening : opening.map TextUnit.code = [91])
    (hmiddle : middle.map TextUnit.code = [93, 40]) (hclosing : closing.map TextUnit.code = [41]) :
    label.length + target.length + 4 = opening.length + label.length + (middle ++ (target ++ closing)).length := by
  rw [length_append, length_append, length_of_codes hopening, length_of_codes hmiddle, length_of_codes hclosing]
  simp only [length_cons, length_nil]
  omega

theorem applyLink_keeps (hvalid : ValidEntities content) :
    ValidEntities (applyLink content) ∧ MarkersRemoved content.text (applyLink content).text := by
  rcases applyLink_cases content with ⟨_, hsame⟩ |
    ⟨before, opening, label, middle, target, closing, after, hsplit, hopening, hmiddle, hclosing, hlabel, _, hround⟩
  · rw [hsame]
    exact ⟨hvalid, .refl⟩
  · have hfull := linkLength_eq label target hopening hmiddle hclosing
    rw [hround]
    refine ⟨hvalid.wrap hsplit hlabel hfull _, ?_⟩
    have hmarkers : Markers opening (middle ++ (target ++ closing)) := .link hopening hmiddle hclosing
    rw [wrapInlineRange_text hsplit hfull]
    refine .step ?_ hmarkers hlabel
    rw [← hsplit]
    exact .refl

theorem applyLink_sublist (content : RichTextContent α) : List.Sublist (applyLink content).text content.text := by
  have hplain : ValidEntities ({ content with entities := [] } : RichTextContent α) := fun _ h => by cases h
  have htext : (applyLink { content with entities := [] }).text = (applyLink content).text := by
    unfold applyLink
    dsimp only
    split <;> rfl
  rw [← htext]
  exact (applyLink_keeps hplain).2.sublist

theorem hasMarks_of_link (hrule : rule.marker ∉ ([91, 93, 40, 41] : List UInt16))
    (hjoins : linkJoins rule.marker content.text = false)
    (h : HasMarks rule (applyLink content).text) : HasMarks rule content.text := by
  rcases applyLink_cases content with ⟨_, hsame⟩ |
    ⟨before, opening, label, middle, target, closing, after, hsplit, hopening, hmiddle, hclosing, hlabel, hexec, hround⟩
  · rwa [hsame] at h
  · have hfull := linkLength_eq label target hopening hmiddle hclosing
    have htake : content.text.take before.length = before := by rw [hsplit, take_left]
    have hdrop : content.text.drop (before.length + (label.length + target.length + 4)) = after := by
      rw [hfull, hsplit, ← drop_drop, drop_left, Nat.add_assoc, ← drop_drop, drop_left,
        ← drop_drop, drop_left, drop_left]
    rw [linkJoins, hexec] at hjoins
    dsimp only at hjoins
    rw [htake, hdrop, Bool.or_eq_false_iff, any_eq_false] at hjoins
    rw [hround, wrapInlineRange_text hsplit hfull] at h
    rw [hsplit]
    refine hasMarks_of_replaced h hlabel hjoins.1 (code_ne_of_codes hopening (fun hmem => hrule (by simp_all))) ?_
    intro a ha
    rcases mem_append.1 ha with ha | ha
    · exact code_ne_of_codes hmiddle (fun hmem => hrule (by simp_all)) a ha
    · rcases mem_append.1 ha with ha | ha
      · simpa [isUnit] using hjoins.2 a ha
      · exact code_ne_of_codes hclosing (fun hmem => hrule (by simp_all)) a ha

/-! ## A pattern with one marker on each side -/

omit [TextUnit α] in
theorem exists_first {p : α → Prop} [DecidablePred p] {l : List α} (h : ∃ a ∈ l, p a) :
    ∃ front a back, l = front ++ a :: back ∧ p a ∧ ∀ b ∈ front, ¬ p b := by
  obtain ⟨a, ha, hpa⟩ := h
  obtain ⟨b, hb⟩ := Option.isSome_iff_exists.1
    (find?_isSome (p := fun a => decide (p a)).2 ⟨a, ha, decide_eq_true hpa⟩)
  obtain ⟨hpb, front, back, rfl, hfront⟩ := find?_eq_some_iff_append.1 hb
  exact ⟨front, b, back, rfl, of_decide_eq_true hpb, fun c hc => by simpa using hfront c hc⟩

omit [TextUnit α] in
theorem exists_last {p : α → Prop} [DecidablePred p] {l : List α} (h : ∃ a ∈ l, p a) :
    ∃ front a back, l = front ++ a :: back ∧ p a ∧ ∀ b ∈ back, ¬ p b := by
  obtain ⟨a, ha, hpa⟩ := h
  obtain ⟨front, b, back, hsplit, hb, hfront⟩ := exists_first (l := l.reverse) ⟨a, mem_reverse.2 ha, hpa⟩
  refine ⟨back.reverse, b, front.reverse, ?_, hb, fun c hc => hfront c (mem_reverse.1 hc)⟩
  have hreverse := congrArg List.reverse hsplit
  rw [reverse_reverse, reverse_append, reverse_cons, append_assoc] at hreverse
  exact hreverse

theorem hasMarks_one_iff (hwidth : rule.width = 1) :
    HasMarks rule text ↔ ∃ a b c, List.Sublist [a, b, c] text ∧ TextUnit.code a = rule.marker ∧
      TextUnit.code b ≠ rule.marker ∧ TextUnit.code c = rule.marker := by
  constructor
  · rintro ⟨before, opening, inner, closing, after, rfl, hopening, hclosing, hinner, hfree⟩
    rw [hwidth] at hopening hclosing
    obtain ⟨a, rfl⟩ := length_eq_one_iff.1 (length_of_codes hopening)
    obtain ⟨c, rfl⟩ := length_eq_one_iff.1 (length_of_codes hclosing)
    obtain ⟨b, inner, rfl⟩ := exists_cons_of_ne_nil hinner
    refine ⟨a, b, c, ?_, (List.cons.inj hopening).1, hfree b mem_cons_self, (List.cons.inj hclosing).1⟩
    refine List.Sublist.trans ?_ (sublist_append_right _ _)
    refine List.Sublist.cons_cons a (List.Sublist.cons_cons b ?_)
    refine List.Sublist.trans ?_ (sublist_append_right _ _)
    exact List.Sublist.cons_cons c (nil_sublist _)
  · rintro ⟨a, b, c, hsub, ha, hb, hc⟩
    obtain ⟨front, rest, rfl, hfront, hrest⟩ := cons_sublist_iff.1 hsub
    obtain ⟨mid, tail, rfl, hmid, htail⟩ := cons_sublist_iff.1 hrest
    obtain ⟨m₁, m₂, rfl⟩ := append_of_mem hmid
    obtain ⟨f₁, a', f₂, hf, ha', hf₂⟩ := exists_last (p := fun a => TextUnit.code a = rule.marker) (l := front ++ m₁)
      ⟨a, mem_append_left _ hfront, ha⟩
    obtain ⟨t₁, c', t₂, ht, hc', ht₁⟩ := exists_first (p := fun a => TextUnit.code a = rule.marker) (l := m₂ ++ tail)
      ⟨c, mem_append_right _ (singleton_sublist.1 htail), hc⟩
    refine ⟨f₁, [a'], f₂ ++ b :: t₁, [c'], t₂, ?_, by rw [hwidth]; simp [ha'], by rw [hwidth]; simp [hc'], by simp, ?_⟩
    · calc front ++ (m₁ ++ b :: m₂ ++ tail) = (front ++ m₁) ++ b :: (m₂ ++ tail) := by simp
        _ = f₁ ++ ([a'] ++ ((f₂ ++ b :: t₁) ++ ([c'] ++ t₂))) := by rw [hf, ht]; simp
    · intro d hd
      rcases mem_append.1 hd with hd | hd
      · exact hf₂ d hd
      · rcases mem_cons.1 hd with rfl | hd
        · exact hb
        · exact ht₁ d hd

/-! ## All rules -/

theorem applyRules_append (rules rules' : List (InlineRule × EntityKind α)) (content : RichTextContent α) :
    applyRules (rules ++ rules') content = applyRules rules' (applyRules rules content) :=
  foldl_append

omit [TextUnit α] in
theorem mem_rules {kind : EntityKind α} (h : (rule, kind) ∈ INLINE_MARKDOWN) :
    rule ∈ [boldRule, strikeRule, italicRule, codeRule] :=
  mem_map_of_mem (f := Prod.fst) h

theorem width_pos (h : rule ∈ [boldRule, strikeRule, italicRule, codeRule]) : 0 < rule.width := by
  simp only [mem_cons, not_mem_nil, or_false] at h
  rcases h with rfl | rfl | rfl | rfl <;> decide

theorem no_bracket (h : rule ∈ [boldRule, strikeRule, italicRule, codeRule]) :
    rule.marker ∉ ([91, 93, 40, 41] : List UInt16) := by
  simp only [mem_cons, not_mem_nil, or_false] at h
  rcases h with rfl | rfl | rfl | rfl <;> decide

theorem applyRules_keeps : ∀ (rules : List (InlineRule × EntityKind α)) (content : RichTextContent α),
    (∀ rule ∈ rules, rule.1 ∈ [boldRule, strikeRule, italicRule, codeRule]) → ValidEntities content →
      ValidEntities (applyRules rules content) ∧ MarkersRemoved content.text (applyRules rules content).text
  | [],            _,       _,      hvalid => ⟨hvalid, .refl⟩
  | rule :: rules, content, hrules, hvalid => by
    have hrule := hrules rule mem_cons_self
    obtain ⟨hvalid', hremoved⟩ :=
      applyRule_keeps hrule (width_pos hrule) rule.2 content.text.length content hvalid
    obtain ⟨hvalid'', hremoved'⟩ := applyRules_keeps rules (applyRule rule.1 rule.2 content.text.length content)
      (fun r hr => hrules r (mem_cons_of_mem _ hr)) hvalid'
    exact ⟨hvalid'', hremoved.trans hremoved'⟩

theorem parseInlineMarkdown_keeps (text : List α) :
    ValidEntities (parseInlineMarkdown text) ∧ MarkersRemoved text (parseInlineMarkdown text).text := by
  have hempty : ValidEntities ({ text, entities := [] } : RichTextContent α) := fun _ h => by cases h
  obtain ⟨hvalid, hremoved⟩ :=
    applyRules_keeps INLINE_MARKDOWN { text, entities := [] } (fun _ hrule => mem_rules hrule) hempty
  obtain ⟨hvalid', hremoved'⟩ := applyLink_keeps hvalid
  exact ⟨hvalid', hremoved.trans hremoved'⟩

theorem hasMarks_of_later (hrule : rule ∈ [boldRule, strikeRule, italicRule, codeRule]) :
    ∀ (later : List (InlineRule × EntityKind α)) (content : RichTextContent α),
      (∀ r ∈ later, 0 < r.1.width ∧ r.1.marker ≠ rule.marker) → laterJoins rule.marker later content = false →
      HasMarks rule (applyLink (applyRules later content)).text → HasMarks rule content.text
  | [],         content, _,      hjoins, h => hasMarks_of_link (no_bracket hrule) hjoins h
  | r :: later, content, hlater, hjoins, h => by
    rw [laterJoins, Bool.or_eq_false_iff] at hjoins
    obtain ⟨hwidth, hmarker⟩ := hlater r mem_cons_self
    have hrest := hasMarks_of_later hrule later (applyRule r.1 r.2 content.text.length content)
      (fun r' hr' => hlater r' (mem_cons_of_mem _ hr')) hjoins.2 h
    exact hasMarks_of_loop hwidth hmarker r.2 content.text.length content hjoins.1 hrest

/-- **What inline parsing gives.** -/
structure Parsed (text : List α) (content : RichTextContent α) : Prop where
  entities : ValidEntities content
  removed : MarkersRemoved text content.text
  code : ¬ HasMarks codeRule content.text
  /-- A rule's pattern does not match unless later replacements bring its markers together. -/
  rules : ∀ earlier rule kind later, INLINE_MARKDOWN = earlier ++ (rule, kind) :: later →
    laterJoins rule.marker later (applyRules (earlier ++ [(rule, kind)]) { text, entities := [] }) = false →
      ¬ HasMarks rule content.text

/-- **Inline parsing ends, with valid entities, and removes markers only**; the loop of a rule ends when its own pattern
matches no more, and the code pattern does not match behind it either. -/
theorem parseInlineMarkdown_parsed (text : List α) :
    (∀ rule kind, (rule, kind) ∈ INLINE_MARKDOWN → ∀ (content : RichTextContent α) (fuel : Nat), content.text.length ≤ fuel →
      applyRule rule kind fuel content = applyRule rule kind content.text.length content ∧
        ¬ HasMarks rule (applyRule rule kind fuel content).text) ∧
      Parsed text (parseInlineMarkdown text) := by
  refine ⟨fun rule kind hmem content fuel hfuel => ?_, ?_⟩
  · have hwidth := width_pos (mem_rules hmem)
    obtain ⟨more, rfl⟩ := Nat.exists_eq_add_of_le hfuel
    obtain ⟨_, hmore⟩ := applyRule_done hwidth kind content.text.length content (Nat.le_refl _)
    exact ⟨hmore more, (applyRule_done hwidth kind _ content hfuel).1⟩
  · obtain ⟨hvalid, hremoved⟩ := parseInlineMarkdown_keeps text
    have hlinked : List.Sublist (parseInlineMarkdown text).text
        (applyRules INLINE_MARKDOWN ({ text, entities := [] } : RichTextContent α)).text := applyLink_sublist _
    have hdone : ∀ earlier rule kind, (rule, kind) ∈ (INLINE_MARKDOWN : List (InlineRule × EntityKind α)) →
        ¬ HasMarks rule (applyRules (earlier ++ [(rule, kind)]) { text, entities := [] }).text := by
      intro earlier rule kind hmem
      rw [applyRules_append]
      exact (applyRule_done (width_pos (mem_rules hmem)) kind _ _ (Nat.le_refl _)).1
    refine ⟨hvalid, hremoved, fun hcode => ?_, fun earlier rule kind later hsplit hjoins hmarks => ?_⟩
    · obtain ⟨a, b, c, hsub, habc⟩ := (hasMarks_one_iff rfl).1 hcode
      refine hdone [(boldRule, .bold), (strikeRule, .strike), (italicRule, .italic)] codeRule .code (by simp [INLINE_MARKDOWN]) ?_
      exact (hasMarks_one_iff rfl).2 ⟨a, b, c, hsub.trans hlinked, habc⟩
    · have hmem : (rule, kind) ∈ (INLINE_MARKDOWN : List (InlineRule × EntityKind α)) := by
        rw [hsplit]
        simp
      refine hdone earlier rule kind hmem (hasMarks_of_later (mem_rules hmem) later _ (fun r hr => ⟨?_, ?_⟩) hjoins ?_)
      · have hlater : (r.1, r.2) ∈ (INLINE_MARKDOWN : List (InlineRule × EntityKind α)) := by
          rw [hsplit]
          exact mem_append_right _ (mem_cons_of_mem _ hr)
        exact width_pos (mem_rules hlater)
      · have hdistinct : ((INLINE_MARKDOWN : List (InlineRule × EntityKind α)).map (fun r => r.1.marker)).Nodup := by
          show ([42, 126, 95, 96] : List UInt16).Nodup
          decide
        rw [hsplit, map_append, map_cons, nodup_append, nodup_cons] at hdistinct
        intro heq
        exact hdistinct.2.1.1 (heq ▸ mem_map_of_mem hr)
      · rw [← applyRules_append, append_assoc]
        have hall : earlier ++ ([(rule, kind)] ++ later) = INLINE_MARKDOWN := hsplit.symm
        rw [hall]
        exact hmarks

/-- `*~~*a**~~`: without the strike's markers two asterisks stand together, and the bold pattern matches. -/
theorem strike_leaves_bold :
    (parseInlineMarkdown ([42, 126, 126, 42, 97, 42, 42, 126, 126] : List UInt16)).text = [42, 42, 97, 42, 42] ∧
      HasMarks boldRule (parseInlineMarkdown ([42, 126, 126, 42, 97, 42, 42, 126, 126] : List UInt16)).text := by
  have htext : (parseInlineMarkdown ([42, 126, 126, 42, 97, 42, 42, 126, 126] : List UInt16)).text = [42, 42, 97, 42, 42] := by
    decide
  refine ⟨htext, [], [42, 42], [97], [42, 42], [], htext, rfl, rfl, by decide, ?_⟩
  intro a ha
  rw [mem_singleton.1 ha]
  decide

end InlineMarkdown
end Crossgram
