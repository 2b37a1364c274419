import Mathlib.Data.List.TakeWhile
import Crossgram.MarkdownBlocks
/-!
# MarkdownOrder — blocks in the order of their lines

Every unit carries the number of the line it was taken from.  The units that were read so far are all from lines that
were handled; a flush moves a buffer behind the blocks, less what trimming and markers take away, so the order holds as
long as only one of the two buffers shows anything.
-/
namespace Crossgram
namespace MarkdownBlocks

open List InlineMarkdown RichTextTree

variable {α M : Type}

/-! ## Tags -/

def tags (tag : α → Option Nat) (text : List α) : List Nat := text.filterMap tag

/-- **In the order of the lines**, which all stand before line `k`. -/
structure InOrder (tag : α → Option Nat) (k : Nat) (text : List α) : Prop where
  ordered : (tags tag text).Pairwise (· ≤ ·)
  before : ∀ t ∈ tags tag text, t < k

/-- Everything that is tagged is of line `k`. -/
def OfLine (tag : α → Option Nat) (k : Nat) (text : List α) : Prop := ∀ a ∈ text, ∀ t, tag a = some t → t = k

section

variable {tag : α → Option Nat} {k : Nat} {text text' : List α}

theorem InOrder.sublist (h : InOrder tag k text) (hsub : List.Sublist text' text) : InOrder tag k text' :=
  ⟨h.ordered.sublist (hsub.filterMap tag), fun t ht => h.before t ((hsub.filterMap tag).subset ht)⟩

theorem InOrder.mono (h : InOrder tag k text) {k' : Nat} (hle : k ≤ k') : InOrder tag k' text :=
  ⟨h.ordered, fun t ht => Nat.lt_of_lt_of_le (h.before t ht) hle⟩

theorem InOrder.append_same (h : InOrder tag (k + 1) text) (hline : OfLine tag k text') :
    InOrder tag (k + 1) (text ++ text') := by
  have hmem : ∀ t ∈ tags tag text', t = k := by
    intro t ht
    obtain ⟨a, ha, htag⟩ := mem_filterMap.1 ht
    exact hline a ha t htag
  refine ⟨?_, fun t ht => ?_⟩
  · rw [tags, filterMap_append, pairwise_append]
    refine ⟨h.ordered, ?_, fun t ht t' ht' => ?_⟩
    · refine pairwise_of_forall_mem_list (fun t ht t' ht' => ?_)
      rw [hmem t ht, hmem t' ht']
    · rw [hmem t' ht']
      exact Nat.le_of_lt_succ (h.before t ht)
  · rw [tags, filterMap_append] at ht
    rcases mem_append.1 ht with ht | ht
    · exact h.before t ht
    · rw [hmem t ht]
      exact Nat.lt_succ_self k

theorem InOrder.append_line (h : InOrder tag k text) (hline : OfLine tag k text') : InOrder tag (k + 1) (text ++ text') :=
  (h.mono (Nat.le_succ k)).append_same hline

theorem InOrder.append_untagged (h : InOrder tag k text) (hnone : ∀ a ∈ text', tag a = none) :
    InOrder tag k (text ++ text') := by
  have hempty : tags tag text' = [] := filterMap_eq_nil_iff.2 hnone
  have htags : tags tag (text ++ text') = tags tag text := by
    rw [tags, filterMap_append]
    show tags tag text ++ tags tag text' = _
    rw [hempty, append_nil]
  exact ⟨htags ▸ h.ordered, fun t ht => h.before t (htags ▸ ht)⟩

theorem OfLine.subset (h : OfLine tag k text) (hsub : ∀ a ∈ text', a ∈ text) : OfLine tag k text' :=
  fun a ha => h a (hsub a ha)

theorem OfLine.append (h : OfLine tag k text) (h' : OfLine tag k text') : OfLine tag k (text ++ text') := by
  intro a ha
  rcases mem_append.1 ha with ha | ha
  · exact h a ha
  · exact h' a ha

end

/-! ## What is taken from a line -/

section

variable [TextUnit α]

theorem trimStart_sublist (text : List α) : List.Sublist (trimStart text) text := dropWhile_sublist _

theorem trim_sublist (text : List α) : List.Sublist (trim text) (trimStart text) := by
  have h : List.Sublist ((trimStart text).reverse.dropWhile isSpace) (trimStart text).reverse := dropWhile_sublist _
  have hreverse := h.reverse
  rwa [reverse_reverse] at hreverse

theorem isEmpty_trim (text : List α) : (trim text).isEmpty = (trimStart text).isEmpty := by
  cases hstart : trimStart text with
  | nil         =>
    unfold trim
    rw [hstart]
    rfl
  | cons a rest =>
    have ha : isSpace a = false := by
      have hhead := head?_dropWhile_not (p := isSpace) (l := text)
      rw [show text.dropWhile isSpace = a :: rest from hstart, head?_cons] at hhead
      simpa using hhead
    rw [isEmpty_cons, isEmpty_eq_false_iff]
    intro hnil
    unfold trim trimEnd at hnil
    rw [hstart, reverse_eq_nil_iff, dropWhile_eq_nil_iff] at hnil
    have hspace := hnil a (mem_reverse.2 mem_cons_self)
    rw [ha] at hspace
    cases hspace

theorem trimStart_append (text rest : List α) : List.Sublist (trimStart (text ++ rest)) (trimStart text ++ rest) := by
  unfold trimStart
  rw [dropWhile_append]
  split
  · rename_i hempty
    rw [isEmpty_iff.1 hempty, nil_append]
    exact dropWhile_sublist _
  · exact List.Sublist.refl _

theorem joinLines_concat (lines : List (List α)) (line : List α) :
    ∃ between : List α, joinLines (lines ++ [line]) = joinLines lines ++ (between ++ line) ∧
      ∀ a ∈ between, ∃ u, a = TextUnit.lit u := by
  induction lines with
  | nil                => exact ⟨[], by simp [joinLines], fun _ h => by cases h⟩
  | cons first lines ih =>
    cases lines with
    | nil               =>
      refine ⟨[TextUnit.lit 10], by simp [joinLines], fun a ha => ⟨10, mem_singleton.1 ha⟩⟩
    | cons second lines =>
      obtain ⟨between, hjoin, hlit⟩ := ih
      refine ⟨between, ?_, hlit⟩
      unfold joinLines at hjoin ⊢
      rw [cons_append, cons_append, intercalate_cons_cons, intercalate_cons_cons]
      rw [cons_append] at hjoin
      rw [hjoin]
      simp only [append_assoc]

theorem restOfLine_some {rest text : List α} (h : restOfLine rest = some text) : text = rest := by
  unfold restOfLine at h
  split at h
  · cases h
  · exact (Option.some.inj h).symm

theorem spacedRest_sublist {rest text : List α} (h : spacedRest rest = some text) : List.Sublist text rest := by
  unfold spacedRest at h
  split at h
  · rw [restOfLine_some h]
    exact trimStart_sublist rest
  · cases h

omit [TextUnit α] in
theorem takeWhile_drop_sublist (p : α → Bool) (n : Nat) (text : List α) :
    List.Sublist ((text.drop n).takeWhile p) text :=
  (takeWhile_sublist p).trans (drop_sublist n text)

theorem fence_sublist {line language : List α} (h : fence line = some language) : List.Sublist language line := by
  unfold fence at h
  dsimp only at h
  split at h
  · rw [← Option.some.inj h]
    exact (takeWhile_drop_sublist _ 3 (trimStart line)).trans (trimStart_sublist line)
  · cases h

theorem heading_sublist {line text : List α} {level : Nat} (h : heading line = some (level, text)) :
    List.Sublist text line := by
  unfold heading at h
  dsimp only at h
  split at h
  · obtain ⟨text', hrest, hpair⟩ := Option.map_eq_some_iff.1 h
    cases hpair
    exact (spacedRest_sublist hrest).trans (drop_sublist _ line)
  · cases h

theorem quoted_sublist {line text : List α} (h : quoted line = some text) : List.Sublist text line := by
  unfold quoted at h
  dsimp only at h
  split at h
  · rw [restOfLine_some h]
    refine List.Sublist.trans ?_ (trimStart_sublist line)
    split <;> exact drop_sublist _ _
  · cases h

theorem bullet_sublist {line item : List α} (h : bullet line = some item) : List.Sublist item line := by
  unfold bullet at h
  dsimp only at h
  split at h
  · exact ((spacedRest_sublist h).trans (drop_sublist _ _)).trans (trimStart_sublist line)
  · cases h

theorem ordered_sublist {line num item : List α} (h : ordered line = some (num, item)) :
    List.Sublist num line ∧ List.Sublist item line := by
  unfold ordered at h
  dsimp only at h
  split at h
  · obtain ⟨item', hrest, hpair⟩ := Option.map_eq_some_iff.1 h
    cases hpair
    refine ⟨(takeWhile_sublist _).trans (trimStart_sublist line), ?_⟩
    exact (((spacedRest_sublist hrest).trans (drop_sublist _ _)).trans (drop_sublist _ _)).trans
      (trimStart_sublist line)
  · cases h

theorem matchImage_sublist {text alt target : List α} (h : matchImage text = some (alt, target)) :
    List.Sublist alt text ∧ List.Sublist target text := by
  unfold matchImage at h
  dsimp only at h
  split at h
  · cases h
    exact ⟨takeWhile_drop_sublist _ _ _, takeWhile_drop_sublist _ _ _⟩
  · cases h

theorem mem_splitImages : ∀ (fuel : Nat) (line : List α), ∀ piece ∈ splitImages fuel line,
    (∀ a ∈ piece.1, a ∈ line) ∧ ∀ alt target, piece.2 = some (alt, target) → (∀ a ∈ alt, a ∈ line) ∧ ∀ a ∈ target, a ∈ line
  | 0,        line, piece, hpiece => by
    rw [splitImages, mem_singleton] at hpiece
    rw [hpiece]
    exact ⟨fun _ h => h, fun _ _ h => by cases h⟩
  | fuel + 1, line, piece, hpiece => by
    rw [splitImages] at hpiece
    split at hpiece
    · rw [mem_singleton] at hpiece
      rw [hpiece]
      exact ⟨fun _ h => h, fun _ _ h => by cases h⟩
    · rename_i offset alt target hexec
      obtain ⟨before, rest, hsplit, _, hmatch⟩ := exec_some hexec
      obtain ⟨halt, htarget⟩ := matchImage_sublist hmatch
      rcases mem_cons.1 hpiece with rfl | hpiece
      · refine ⟨fun a ha => mem_of_mem_take ha, fun alt' target' heq => ?_⟩
        cases heq
        rw [hsplit]
        exact ⟨fun a ha => mem_append_right _ (halt.subset ha),
          fun a ha => mem_append_right _ (htarget.subset ha)⟩
      · obtain ⟨htext, himage⟩ := mem_splitImages fuel _ piece hpiece
        refine ⟨fun a ha => mem_of_mem_drop (htext a ha), fun alt' target' heq => ?_⟩
        obtain ⟨halt', htarget'⟩ := himage alt' target' heq
        exact ⟨fun a ha => mem_of_mem_drop (halt' a ha), fun a ha => mem_of_mem_drop (htarget' a ha)⟩

theorem mem_splitUnit (unit : UInt16) : ∀ (text : List α), ∀ piece ∈ splitUnit unit text, ∀ a ∈ piece, a ∈ text
  | [],        piece, hpiece, a, ha => by
    rw [splitUnit, mem_singleton] at hpiece
    rw [hpiece] at ha
    cases ha
  | b :: text, piece, hpiece, a, ha => by
    rw [splitUnit] at hpiece
    split at hpiece
    · rcases mem_cons.1 hpiece with rfl | hpiece
      · cases ha
      · exact mem_cons_of_mem _ (mem_splitUnit unit text piece hpiece a ha)
    · split at hpiece
      · rw [mem_singleton] at hpiece
        rw [hpiece] at ha
        rw [mem_singleton.1 ha]
        exact mem_cons_self
      · rename_i first pieces hpieces
        rcases mem_cons.1 hpiece with rfl | hpiece
        · rcases mem_cons.1 ha with rfl | ha
          · exact mem_cons_self
          · exact mem_cons_of_mem _ (mem_splitUnit unit text first (by rw [hpieces]; exact mem_cons_self) a ha)
        · exact mem_cons_of_mem _
            (mem_splitUnit unit text piece (by rw [hpieces]; exact mem_cons_of_mem _ hpiece) a ha)

theorem mem_markdownTableRow {line : List α} {row : List (List α)} (h : markdownTableRow line = some row) :
    ∀ cell ∈ row, ∀ a ∈ cell, a ∈ line := by
  unfold markdownTableRow at h
  dsimp only at h
  generalize hopened : (if (trim line).head?.any (isUnit 124) = true then (trim line).drop 1 else trim line) = opened at h
  generalize hclosed : (if opened.getLast?.any (isUnit 124) = true then opened.dropLast else opened) = closed at h
  have hsub : List.Sublist closed line := by
    have hopen : List.Sublist opened (trim line) := by
      rw [← hopened]
      split
      · exact drop_sublist _ _
      · exact List.Sublist.refl _
    have hclose : List.Sublist closed opened := by
      rw [← hclosed]
      split
      · exact dropLast_sublist _
      · exact List.Sublist.refl _
    exact ((hclose.trans hopen).trans (trim_sublist line)).trans (trimStart_sublist line)
  have hrow : (splitUnit 124 closed).map trim = row := by
    split at h
    · split at h
      · exact Option.some.inj h
      · cases h
    · cases h
  intro cell hcell a ha
  rw [← hrow] at hcell
  obtain ⟨piece, hpiece, rfl⟩ := mem_map.1 hcell
  have hin : a ∈ piece := (trimStart_sublist piece).subset ((trim_sublist piece).subset ha)
  exact hsub.subset (mem_splitUnit 124 closed piece hpiece a hin)

theorem mem_rowCells (header : Bool) (delimiter : List (List α)) {row : List (List α)} {line : List α}
    (hrow : ∀ cell ∈ row, ∀ a ∈ cell, a ∈ line) :
    ∀ a ∈ (rowCells header delimiter row).flatMap (fun cell => cell.text.read), a ∈ line := by
  intro a ha
  obtain ⟨cell, hcell, ha⟩ := mem_flatMap.1 ha
  obtain ⟨column, _, rfl⟩ := mem_map.1 hcell
  replace ha : a ∈ (row[column.2]?).getD [] := (read_markdownRichText ((row[column.2]?).getD [])).subset ha
  cases hget : row[column.2]? with
  | none      =>
    rw [hget] at ha
    exact absurd ha not_mem_nil
  | some text =>
    rw [hget] at ha
    exact hrow text (mem_of_getElem? hget) a ha

end

/-! ## Lines that are tagged -/

/-- Line by line from line `k` on, everything carries the line's number. -/
def TaggedFrom (tag : α → Option Nat) : Nat → List (List α) → Prop
  | _, []            => True
  | k, line :: lines => OfLine tag k line ∧ TaggedFrom tag (k + 1) lines

theorem TaggedFrom.tail {tag : α → Option Nat} {k : Nat} {lines : List (List α)} (h : TaggedFrom tag k lines) :
    TaggedFrom tag (k + 1) (lines.drop 1) := by
  cases lines with
  | nil             => exact trivial
  | cons line lines => exact h.2

section

variable [TextUnit α] {tag : α → Option Nat} {k : Nat}

def LineKind.Of (inCode : Bool) (line : List α) (rest : List (List α)) : LineKind α → Prop
  | .codeEnd            => inCode = true
  | .codeLine           => inCode = true
  | .fence language     => inCode = false ∧ List.Sublist language line
  | .blank              => inCode = false
  | .table rows further => inCode = false ∧ markdownTable line rest = some (rows, further)
  | .heading _ text     => inCode = false ∧ List.Sublist text line
  | .quoted text        => inCode = false ∧ List.Sublist text line
  | .bullet item        => inCode = false ∧ List.Sublist item line
  | .ordered num item   => inCode = false ∧ List.Sublist num line ∧ List.Sublist item line
  | .plain              => inCode = false

theorem lineKind_of (inCode : Bool) (line : List α) (rest : List (List α)) :
    (lineKind inCode line rest).Of inCode line rest := by
  unfold lineKind
  split
  · rename_i hcode
    split <;> exact hcode
  · rename_i hcode
    replace hcode : inCode = false := Bool.eq_false_iff.2 hcode
    split
    · rename_i language hfence
      exact ⟨hcode, fence_sublist hfence⟩
    · split
      · exact hcode
      · split
        · rename_i rows further htable
          exact ⟨hcode, htable⟩
        · split
          · rename_i level text hheading
            exact ⟨hcode, heading_sublist hheading⟩
          · split
            · rename_i text hquoted
              exact ⟨hcode, quoted_sublist hquoted⟩
            · split
              · rename_i item hbullet
                exact ⟨hcode, bullet_sublist hbullet⟩
              · split
                · rename_i num item hordered
                  exact ⟨hcode, ordered_sublist hordered⟩
                · exact hcode

theorem InOrder.append_rows (delimiter : List (List α)) : ∀ (lines : List (List α)) {k : Nat} {text : List α},
    TaggedFrom tag k lines → InOrder tag k text →
      InOrder tag (k + (tableRows lines).length)
        (text ++ ((tableRows lines).map (rowCells false delimiter)).flatMap
          (fun row => row.flatMap (fun cell => cell.text.read)))
  | [],            k, text, _,    h => by
    rw [tableRows, map_nil, flatMap_nil, append_nil]
    exact h
  | line :: lines, k, text, htag, h => by
    rw [tableRows]
    split
    · rename_i row hrow
      rw [map_cons, flatMap_cons, ← append_assoc, length_cons]
      have hline := htag.1.subset (mem_rowCells false delimiter (mem_markdownTableRow hrow))
      have hnext := InOrder.append_rows delimiter lines htag.2 (h.append_line hline)
      rw [show k + ((tableRows lines).length + 1) = k + 1 + (tableRows lines).length by omega]
      exact hnext
    · rw [map_nil, flatMap_nil, append_nil]
      exact h

/-- **A table reads in the order of its lines**, the line under its header aside. -/
theorem InOrder.append_table {line : List α} {rest : List (List α)} {rows : List (List (PageTableCell α))} {further : Nat}
    {text : List α} (h : InOrder tag k text) (htag : TaggedFrom tag k (line :: rest))
    (htable : markdownTable line rest = some (rows, further)) :
    InOrder tag (k + 1 + further) (text ++ (PageBlock.table rows : PageBlock α M).read) := by
  unfold markdownTable at htable
  split at htable
  · rename_i header delimiter hheader _
    split at htable
    · obtain ⟨hrows, hfurther⟩ := Prod.mk.inj (Option.some.inj htable)
      rw [← hrows, ← hfurther, PageBlock.read, flatMap_cons, ← append_assoc]
      have hline := htag.1.subset (mem_rowCells true delimiter (mem_markdownTableRow hheader))
      have hnext := InOrder.append_rows delimiter (rest.drop 1) htag.2.tail ((h.append_line hline).mono (Nat.le_succ _))
      rw [show k + 1 + ((tableRows (rest.drop 1)).length + 1) = k + 1 + 1 + (tableRows (rest.drop 1)).length by omega]
      exact hnext
    · cases htable
  · cases htable

end

/-! ## The invariant of the walk -/

theorem readBlocks_append (blocks : List (PageBlock α M)) (block : PageBlock α M) :
    readBlocks (blocks ++ [block]) = readBlocks blocks ++ block.read := by
  unfold readBlocks
  rw [flatMap_append, flatMap_singleton]

section

variable [TextUnit α]

/-- **What was read up to line `k`** is in order, with each buffer behind the blocks, and one of the buffers is blank. -/
structure Inv (tag : α → Option Nat) (k : Nat) (s : State α M) : Prop where
  paragraph : InOrder tag k (readBlocks s.blocks ++ s.paragraph)
  quote : InOrder tag k (readBlocks s.blocks ++ trimStart (joinLines s.quote))
  apart : s.paragraph = [] ∨ trimStart (joinLines s.quote) = []
  code : ∀ language lines, s.code = some (language, lines) →
    s.paragraph = [] ∧ s.quote = [] ∧ InOrder tag k (readBlocks s.blocks ++ (language ++ joinLines lines))

variable {tag : α → Option Nat} {k : Nat} {s : State α M}

theorem Inv.of_paragraph (h : InOrder tag k (readBlocks s.blocks ++ s.paragraph))
    (hquote : trimStart (joinLines s.quote) = []) (hcode : s.code = none) : Inv tag k s := by
  refine ⟨h, ?_, .inr hquote, fun language lines hsome => ?_⟩
  · rw [hquote, append_nil]
    exact h.sublist (sublist_append_left _ _)
  · rw [hcode] at hsome
    cases hsome

theorem Inv.of_quote (h : InOrder tag k (readBlocks s.blocks ++ trimStart (joinLines s.quote)))
    (hparagraph : s.paragraph = []) (hcode : s.code = none) : Inv tag k s := by
  refine ⟨?_, h, .inl hparagraph, fun language lines hsome => ?_⟩
  · rw [hparagraph, append_nil]
    exact h.sublist (sublist_append_left _ _)
  · rw [hcode] at hsome
    cases hsome

theorem Inv.empty (tag : α → Option Nat) : Inv tag 0 ({} : State α M) :=
  Inv.of_paragraph ⟨List.Pairwise.nil, fun _ h => absurd h not_mem_nil⟩ rfl rfl

theorem Inv.mono (h : Inv tag k s) {k' : Nat} (hle : k ≤ k') : Inv tag k' s :=
  ⟨h.paragraph.mono hle, h.quote.mono hle, h.apart, fun language lines hsome =>
    ⟨(h.code language lines hsome).1, (h.code language lines hsome).2.1, (h.code language lines hsome).2.2.mono hle⟩⟩

/-! ### Flushing -/

theorem flushParagraph_eq (s : State α M) : s.flushParagraph.paragraph = [] ∧ s.flushParagraph.quote = s.quote ∧
    s.flushParagraph.code = s.code := by
  unfold State.flushParagraph
  dsimp only
  split <;> exact ⟨rfl, rfl, rfl⟩

theorem flushQuote_eq (s : State α M) : s.flushQuote.paragraph = s.paragraph ∧ s.flushQuote.quote = [] ∧
    s.flushQuote.code = s.code := by
  unfold State.flushQuote
  dsimp only
  split <;> exact ⟨rfl, rfl, rfl⟩

theorem flush_eq (s : State α M) : s.flush.paragraph = [] ∧ s.flush.quote = [] ∧ s.flush.code = s.code := by
  obtain ⟨hparagraph, hquote, hcode⟩ := flushQuote_eq s.flushParagraph
  obtain ⟨hparagraph', hquote', hcode'⟩ := flushParagraph_eq s
  exact ⟨hparagraph.trans hparagraph', hquote, hcode.trans hcode'⟩

theorem readBlocks_flushParagraph (s : State α M) :
    List.Sublist (readBlocks s.flushParagraph.blocks) (readBlocks s.blocks ++ s.paragraph) := by
  unfold State.flushParagraph
  dsimp only
  split
  · exact sublist_append_left _ _
  · rw [State.push, readBlocks_append]
    refine (List.Sublist.refl _).append ?_
    exact ((read_markdownRichText _).trans (trim_sublist _)).trans (trimStart_sublist _)

theorem readBlocks_flushQuote (s : State α M) :
    List.Sublist (readBlocks s.flushQuote.blocks) (readBlocks s.blocks ++ trimStart (joinLines s.quote)) := by
  unfold State.flushQuote
  dsimp only
  split
  · exact sublist_append_left _ _
  · rw [State.push, readBlocks_append]
    exact (List.Sublist.refl _).append ((read_markdownRichText _).trans (trim_sublist _))

theorem flushParagraph_nil (hparagraph : s.paragraph = []) : s.flushParagraph = s := by
  unfold State.flushParagraph
  rw [hparagraph]
  cases s
  cases hparagraph
  rfl

theorem Inv.flushParagraph (h : Inv tag k s) : Inv tag k s.flushParagraph := by
  rcases h.apart with hparagraph | hquote
  · rw [flushParagraph_nil hparagraph]
    exact h
  · obtain ⟨hnil, hsame, hcode⟩ := flushParagraph_eq s
    cases hopen : s.code with
    | none      =>
      refine Inv.of_paragraph ?_ (by rw [hsame]; exact hquote) (hcode.trans hopen)
      rw [hnil, append_nil]
      exact h.paragraph.sublist (readBlocks_flushParagraph s)
    | some code =>
      rw [flushParagraph_nil (h.code code.1 code.2 hopen).1]
      exact h

/-- **After a flush** all that was read stands in the blocks. -/
theorem Inv.flush (h : Inv tag k s) : InOrder tag k (readBlocks s.flush.blocks) := by
  unfold State.flush
  exact h.flushParagraph.quote.sublist (readBlocks_flushQuote s.flushParagraph)

theorem Inv.of_settled (h : InOrder tag k (readBlocks s.blocks)) (hparagraph : s.paragraph = []) (hquote : s.quote = [])
    (hcode : s.code = none) : Inv tag k s := by
  refine Inv.of_paragraph ?_ (by rw [hquote]; rfl) hcode
  rw [hparagraph, append_nil]
  exact h

/-! ### Lists -/

omit [TextUnit α] in
theorem pushBullet_eq (s : State α M) (item : TypeRichText α) :
    readBlocks (s.pushBullet item).blocks = readBlocks s.blocks ++ item.read ∧
      (s.pushBullet item).paragraph = s.paragraph ∧ (s.pushBullet item).quote = s.quote ∧
      (s.pushBullet item).code = s.code := by
  unfold State.pushBullet
  split
  · rename_i items hlast
    refine ⟨?_, rfl, rfl, rfl⟩
    have hsplit := dropLast_append_getLast? _ hlast
    rw [readBlocks_append]
    conv_rhs => rw [← hsplit, readBlocks_append]
    rw [PageBlock.read, PageBlock.read, flatMap_append, flatMap_singleton, append_assoc]
  · refine ⟨?_, rfl, rfl, rfl⟩
    rw [State.push, readBlocks_append, PageBlock.read, flatMap_singleton]

omit [TextUnit α] in
theorem pushOrdered_eq (s : State α M) (num : List α) (item : TypeRichText α) :
    readBlocks (s.pushOrdered num item).blocks = readBlocks s.blocks ++ (num ++ item.read) ∧
      (s.pushOrdered num item).paragraph = s.paragraph ∧ (s.pushOrdered num item).quote = s.quote ∧
      (s.pushOrdered num item).code = s.code := by
  unfold State.pushOrdered
  split
  · rename_i items hlast
    refine ⟨?_, rfl, rfl, rfl⟩
    have hsplit := dropLast_append_getLast? _ hlast
    rw [readBlocks_append]
    conv_rhs => rw [← hsplit, readBlocks_append]
    rw [PageBlock.read, PageBlock.read, flatMap_append, flatMap_singleton, append_assoc]
  · refine ⟨?_, rfl, rfl, rfl⟩
    rw [State.push, readBlocks_append, PageBlock.read, flatMap_singleton]

/-! ### A plain line -/

theorem appendPiece_keeps (image : List UInt16 → Option M) (s : State α M) (piece : List α × Option (List α × List α)) :
    (s.appendPiece image piece).quote = s.quote ∧ (s.appendPiece image piece).code = s.code := by
  unfold State.appendPiece
  dsimp only
  split
  · exact ⟨rfl, rfl⟩
  · split
    · exact ⟨rfl, rfl⟩
    · exact (flushParagraph_eq { s with paragraph := s.paragraph ++ piece.1 }).2

theorem appendPieces_keeps (image : List UInt16 → Option M) :
    ∀ (pieces : List (List α × Option (List α × List α))) (s : State α M),
      (pieces.foldl (State.appendPiece image) s).quote = s.quote ∧ (pieces.foldl (State.appendPiece image) s).code = s.code
  | [],              _ => ⟨rfl, rfl⟩
  | piece :: pieces, s => by
    obtain ⟨hquote, hcode⟩ := appendPiece_keeps image s piece
    obtain ⟨hquote', hcode'⟩ := appendPieces_keeps image pieces (s.appendPiece image piece)
    exact ⟨hquote'.trans hquote, hcode'.trans hcode⟩

theorem appendPiece_order (image : List UInt16 → Option M) {piece : List α × Option (List α × List α)}
    (htext : OfLine tag k piece.1)
    (himage : ∀ alt target, piece.2 = some (alt, target) → OfLine tag k alt ∧ OfLine tag k target)
    (h : InOrder tag (k + 1) (readBlocks s.blocks ++ s.paragraph)) :
    InOrder tag (k + 1) (readBlocks (s.appendPiece image piece).blocks ++ (s.appendPiece image piece).paragraph) := by
  have hpiece : InOrder tag (k + 1) (readBlocks s.blocks ++ (s.paragraph ++ piece.1)) := by
    rw [← append_assoc]
    exact h.append_same htext
  unfold State.appendPiece
  dsimp only
  split
  · exact hpiece
  · rename_i alt target hsome
    obtain ⟨halt, htarget⟩ := himage alt target hsome
    split
    · dsimp only
      rw [← append_assoc]
      refine hpiece.append_same ?_
      split
      · exact htarget
      · exact halt
    · have hnil := (flushParagraph_eq { s with paragraph := s.paragraph ++ piece.1 }).1
      dsimp only [State.push]
      rw [hnil, append_nil, readBlocks_append, PageBlock.read]
      exact (hpiece.sublist (readBlocks_flushParagraph _)).append_same htarget

theorem appendPieces_order (image : List UInt16 → Option M) :
    ∀ (pieces : List (List α × Option (List α × List α))) {s : State α M},
      (∀ piece ∈ pieces, OfLine tag k piece.1 ∧
        ∀ alt target, piece.2 = some (alt, target) → OfLine tag k alt ∧ OfLine tag k target) →
      InOrder tag (k + 1) (readBlocks s.blocks ++ s.paragraph) →
      InOrder tag (k + 1) (readBlocks (pieces.foldl (State.appendPiece image) s).blocks ++
          (pieces.foldl (State.appendPiece image) s).paragraph)
  | [],              _, _,    h => h
  | piece :: pieces, s, hall, h => by
    obtain ⟨htext, himage⟩ := hall piece mem_cons_self
    exact appendPieces_order image pieces (fun p hp => hall p (mem_cons_of_mem _ hp))
      (appendPiece_order image htext himage h)

variable {line : List α}

/-- **The pieces of line `k`** behind what waits of it. -/
theorem appendLine_order (image : List UInt16 → Option M) (hline : OfLine tag k line)
    (h : InOrder tag (k + 1) (readBlocks s.blocks ++ s.paragraph)) :
    InOrder tag (k + 1) (readBlocks (s.appendLine image line).blocks ++ (s.appendLine image line).paragraph) := by
  refine appendPieces_order image _ (fun piece hpiece => ?_) h
  obtain ⟨htext, himage⟩ := mem_splitImages line.length line piece hpiece
  exact ⟨hline.subset htext, fun alt target hsome =>
    ⟨hline.subset (himage alt target hsome).1, hline.subset (himage alt target hsome).2⟩⟩

def State.openLine (s : State α M) : State α M :=
  if s.paragraph.isEmpty then s else { s with paragraph := s.paragraph ++ [TextUnit.lit 10] }

theorem openLine_keeps (s : State α M) : s.openLine.quote = s.quote ∧ s.openLine.code = s.code := by
  unfold State.openLine
  split <;> exact ⟨rfl, rfl⟩

theorem plain_keeps (image : List UInt16 → Option M) (s : State α M) (line : List α) :
    (s.handleLine image line .plain).quote = s.quote ∧ (s.handleLine image line .plain).code = s.code := by
  obtain ⟨hquote, hcode⟩ := appendPieces_keeps image (splitImages line.length line) s.openLine
  exact ⟨hquote.trans (openLine_keeps s).1, hcode.trans (openLine_keeps s).2⟩

/-! ### The round -/

theorem Inv.push (h : Inv tag k s) (hcode : s.code = none) {k' : Nat} {block : PageBlock α M}
    (hblock : ∀ text, InOrder tag k text → InOrder tag k' (text ++ block.read)) : Inv tag k' (s.flush.push block) := by
  obtain ⟨hparagraph, hquote, hsame⟩ := flush_eq s
  refine Inv.of_settled ?_ hparagraph hquote (hsame.trans hcode)
  dsimp only [State.push]
  rw [readBlocks_append]
  exact hblock _ h.flush

/-- **A line between the fences of a code block.** -/
theorem Inv.codeLine (hlit : ∀ u, tag (TextUnit.lit u) = none) (h : Inv tag k s) (hcode : s.code.isSome = true)
    (hline : OfLine tag k line) :
    Inv tag (k + 1) { s with code := s.code.map (fun code => (code.1, code.2 ++ [line])) } := by
  obtain ⟨⟨language, lines⟩, hopen⟩ := Option.isSome_iff_exists.1 hcode
  obtain ⟨hparagraph, hquote, horder⟩ := h.code language lines hopen
  have hmono := h.mono (Nat.le_succ k)
  refine ⟨hmono.paragraph, hmono.quote, hmono.apart, fun language' lines' hsome => ?_⟩
  dsimp only at hsome ⊢
  rw [hopen, Option.map_some] at hsome
  obtain ⟨hlanguage, hlines⟩ := Prod.mk.inj (Option.some.inj hsome)
  dsimp only at hlanguage hlines
  refine ⟨hparagraph, hquote, ?_⟩
  obtain ⟨between, hjoin, hbetween⟩ := joinLines_concat lines line
  rw [← hlanguage, ← hlines, hjoin, ← append_assoc, ← append_assoc, ← append_assoc]
  rw [← append_assoc] at horder
  refine (horder.append_untagged (fun a ha => ?_)).append_line hline
  obtain ⟨u, rfl⟩ := hbetween a ha
  exact hlit u

/-- **The fence that closes a code block.** -/
theorem Inv.pushCode (h : Inv tag k s) : Inv tag k s.pushCode := by
  unfold State.pushCode
  split
  · rename_i language lines hopen
    obtain ⟨hparagraph, hquote, horder⟩ := h.code language lines hopen
    refine Inv.of_settled ?_ hparagraph hquote rfl
    dsimp only [State.push]
    rw [readBlocks_append, PageBlock.read]
    exact horder
  · exact h

theorem pushCode_code (s : State α M) : s.pushCode.code = none := by
  unfold State.pushCode
  split
  · rfl
  · assumption

/-- **A quoted line** goes behind the quoted lines that wait. -/
theorem Inv.quoted (hlit : ∀ u, tag (TextUnit.lit u) = none) (h : Inv tag k s) (hcode : s.code = none) {text : List α}
    (htext : OfLine tag k text) : Inv tag (k + 1) { s.flushParagraph with quote := s.quote ++ [text] } := by
  obtain ⟨hparagraph, hquote, hsame⟩ := flushParagraph_eq s
  refine Inv.of_quote ?_ hparagraph (hsame.trans hcode)
  dsimp only
  obtain ⟨between, hjoin, hbetween⟩ := joinLines_concat s.quote text
  have hbehind : InOrder tag (k + 1)
      (readBlocks s.flushParagraph.blocks ++ trimStart (joinLines s.quote) ++ between ++ text) := by
    have hwaits := h.flushParagraph.quote
    rw [hquote] at hwaits
    refine (hwaits.append_untagged (fun a ha => ?_)).append_line htext
    obtain ⟨u, rfl⟩ := hbetween a ha
    exact hlit u
  rw [hjoin]
  refine hbehind.sublist ?_
  rw [append_assoc, append_assoc]
  exact (List.Sublist.refl _).append (trimStart_append _ _)

/-- **A plain line**, no quoted text waiting. -/
theorem Inv.plain (hlit : ∀ u, tag (TextUnit.lit u) = none) (image : List UInt16 → Option M) (h : Inv tag k s)
    (hcode : s.code = none) (hblank : trimStart (joinLines s.quote) = []) (hline : OfLine tag k line) :
    Inv tag (k + 1) (s.handleLine image line .plain) := by
  have hfeed : InOrder tag (k + 1) (readBlocks s.openLine.blocks ++ s.openLine.paragraph) := by
    have hparagraph := (h.mono (Nat.le_succ k)).paragraph
    unfold State.openLine
    split
    · exact hparagraph
    · dsimp only
      rw [← append_assoc]
      refine hparagraph.append_untagged (fun a ha => ?_)
      rw [mem_singleton.1 ha]
      exact hlit 10
  obtain ⟨hquote, hsame⟩ := plain_keeps image s line
  exact Inv.of_paragraph (appendLine_order image hline hfeed) (by rw [hquote]; exact hblank) (hsame.trans hcode)

/-- **A fence** opens a code block behind everything that was read. -/
theorem Inv.fence (h : Inv tag k s) {language : List α} (hlanguage : OfLine tag k language) :
    Inv tag (k + 1) { s.flush with code := some (language, []) } := by
  obtain ⟨hnil, hquote, _⟩ := flush_eq s
  have hflush := h.flush.mono (Nat.le_succ k)
  refine ⟨?_, ?_, .inl hnil, fun language' lines hsome => ⟨hnil, hquote, ?_⟩⟩
  · dsimp only
    rw [hnil, append_nil]
    exact hflush
  · dsimp only
    rw [hquote]
    exact hflush.append_untagged (fun a ha => absurd ha not_mem_nil)
  · obtain ⟨hsame, hlines⟩ := Prod.mk.inj (Option.some.inj hsome)
    rw [← hsame, ← hlines]
    refine h.flush.append_line ?_
    rw [show joinLines ([] : List (List α)) = [] from rfl, append_nil]
    exact hlanguage

theorem OfLine.read {line text : List α} (hline : OfLine tag k line) (hsub : List.Sublist text line) :
    OfLine tag k (markdownRichText (trim text)).read := by
  have hread := ((read_markdownRichText (trim text)).trans (trim_sublist text)).trans (trimStart_sublist text)
  exact hline.subset (fun a ha => (hread.trans hsub).subset ha)

theorem Inv.item (h : Inv tag k s) (hcode : s.code = none) {s' : State α M} {item : List α}
    (hitem : OfLine tag k item) (hread : readBlocks s'.blocks = readBlocks s.flush.blocks ++ item)
    (hparagraph : s'.paragraph = s.flush.paragraph) (hquote : s'.quote = s.flush.quote) (hsame : s'.code = s.flush.code) :
    Inv tag (k + 1) s' := by
  obtain ⟨hnil, hempty, hkeep⟩ := flush_eq s
  refine Inv.of_settled ?_ (hparagraph.trans hnil) (hquote.trans hempty) ((hsame.trans hkeep).trans hcode)
  rw [hread]
  exact h.flush.append_line hitem

omit [TextUnit α] in
theorem closed_of (hcode : s.code.isSome = false) : s.code = none := by
  cases hopen : s.code with
  | none      => rfl
  | some code =>
    rw [hopen] at hcode
    cases hcode

/-- **What one round keeps**: the lines that it takes are read in their order. -/
theorem Inv.handleLine (hlit : ∀ u, tag (TextUnit.lit u) = none) (image : List UInt16 → Option M) (h : Inv tag k s)
    {rest : List (List α)} (htag : TaggedFrom tag k (line :: rest)) :
    ∀ {kind : LineKind α}, kind.Of s.code.isSome line rest →
      (kind.isPlain && !(trim (joinLines s.quote)).isEmpty) = false →
      Inv tag (k + 1 + kind.further) (s.handleLine image line kind)
  | .codeEnd,            _,     _      => h.pushCode.mono (Nat.le_succ k)
  | .codeLine,           hcode, _      => h.codeLine hlit hcode htag.1
  | .fence language,     hkind, _      => h.fence (htag.1.subset (fun a ha => hkind.2.subset ha))
  | .blank,              hcode, _      => by
    obtain ⟨hnil, hquote, hsame⟩ := flush_eq s
    exact Inv.of_settled (h.flush.mono (Nat.le_succ k)) hnil hquote (hsame.trans (closed_of hcode))
  | .table rows further, hkind, _      =>
    h.push (closed_of hkind.1) (fun text horder => horder.append_table htag hkind.2)
  | .heading level text, hkind, _      => by
    refine h.push (closed_of hkind.1) (fun before horder => ?_)
    rw [PageBlock.read]
    exact horder.append_line (htag.1.read hkind.2)
  | .quoted text,        hkind, _      =>
    h.quoted hlit (closed_of hkind.1) (htag.1.subset (fun a ha => hkind.2.subset ha))
  | .bullet item,        hkind, _      => by
    obtain ⟨hread, hparagraph, hquote, hsame⟩ := pushBullet_eq s.flush (markdownRichText (trim item))
    exact h.item (closed_of hkind.1) (htag.1.read hkind.2) hread hparagraph hquote hsame
  | .ordered num item,   hkind, _      => by
    obtain ⟨hread, hparagraph, hquote, hsame⟩ := pushOrdered_eq s.flush num (markdownRichText (trim item))
    have hitem := (htag.1.subset (fun a ha => hkind.2.1.subset ha)).append (htag.1.read hkind.2.2)
    exact h.item (closed_of hkind.1) hitem hread hparagraph hquote hsame
  | .plain,              hcode, hplain => by
    have hblank : trimStart (joinLines s.quote) = [] := by
      rw [LineKind.isPlain, Bool.true_and, Bool.not_eq_false', isEmpty_trim] at hplain
      exact isEmpty_iff.1 hplain
    exact h.plain hlit image (closed_of hcode) hblank htag.1

theorem handleLine_code (image : List UInt16 → Option M) {rest : List (List α)} :
    ∀ {kind : LineKind α}, kind.Of s.code.isSome line rest →
      (s.handleLine image line kind).code.isSome = kind.inCodeBehind s.code.isSome
  | .codeEnd,         _ => congrArg Option.isSome (pushCode_code s)
  | .codeLine,        _ => Option.isSome_map
  | .fence _,         _ => rfl
  | .blank,           _ => congrArg Option.isSome (flush_eq s).2.2
  | .table _ _,       _ => congrArg Option.isSome (flush_eq s).2.2
  | .heading _ _,     _ => congrArg Option.isSome (flush_eq s).2.2
  | .quoted _,        _ => congrArg Option.isSome (flushParagraph_eq s).2.2
  | .bullet _,        _ => congrArg Option.isSome ((pushBullet_eq s.flush _).2.2.2.trans (flush_eq s).2.2)
  | .ordered num _,   _ => congrArg Option.isSome ((pushOrdered_eq s.flush num _).2.2.2.trans (flush_eq s).2.2)
  | .plain,           _ => congrArg Option.isSome (plain_keeps image s line).2

theorem handleLine_quote (image : List UInt16 → Option M) :
    ∀ {kind : LineKind α}, (s.handleLine image line kind).quote = kind.quoteBehind s.quote
  | .codeEnd       => by
    unfold State.handleLine State.pushCode
    dsimp only
    split <;> rfl
  | .codeLine      => rfl
  | .fence _       => (flush_eq s).2.1
  | .blank         => (flush_eq s).2.1
  | .table _ _     => (flush_eq s).2.1
  | .heading _ _   => (flush_eq s).2.1
  | .quoted _      => rfl
  | .bullet _      => (pushBullet_eq s.flush _).2.2.1.trans (flush_eq s).2.1
  | .ordered num _ => (pushOrdered_eq s.flush num _).2.2.1.trans (flush_eq s).2.1
  | .plain         => (plain_keeps image s line).1

/-! ### The walk -/

theorem Inv.walk (hlit : ∀ u, tag (TextUnit.lit u) = none) (image : List UInt16 → Option M) :
    ∀ (lines : List (List α)) (further : Nat) {k : Nat} {s : State α M}, TaggedFrom tag k lines → Inv tag (k + further) s →
      plainBehindQuote lines further s.code.isSome s.quote = false → ∃ k', Inv tag k' (walk image lines further s)
  | [],           _,           _, _, _,    h, _      => ⟨_, h⟩
  | _ :: rest,    further + 1, k, s, htag, h, hplain => by
    rw [plainBehindQuote] at hplain
    rw [MarkdownBlocks.walk]
    rw [show k + (further + 1) = k + 1 + further by omega] at h
    exact Inv.walk hlit image rest further htag.2 h hplain
  | line :: rest, 0,           k, s, htag, h, hplain => by
    rw [plainBehindQuote] at hplain
    rw [Bool.or_eq_false_iff] at hplain
    have hkind := lineKind_of s.code.isSome line rest
    have hround := Inv.handleLine hlit image h htag hkind hplain.1
    rw [MarkdownBlocks.walk]
    refine Inv.walk hlit image rest _ htag.2 hround ?_
    rw [handleLine_code image hkind, handleLine_quote image]
    exact hplain.2

end

/-! ## The loops end -/

section

variable [TextUnit α]

theorem splitImages_done : ∀ (fuel : Nat) (line : List α), line.length ≤ fuel →
    ∀ more, splitImages (fuel + more) line = splitImages fuel line
  | 0,        line, hfuel, more => by
    have hempty : line = [] := length_eq_zero_iff.1 (Nat.le_zero.1 hfuel)
    rw [hempty]
    cases more with
    | zero      => rfl
    | succ more => rfl
  | fuel + 1, line, hfuel, more => by
    rw [Nat.add_right_comm, splitImages, splitImages]
    cases hexec : exec matchImage line with
    | none       => rfl
    | some found =>
      obtain ⟨offset, alt, target⟩ := found
      have hshort : (line.drop (offset + (alt.length + target.length + 5))).length ≤ fuel := by
        rw [length_drop]
        omega
      dsimp only
      rw [splitImages_done fuel _ hshort more]

/-- **The loops inside a round end by themselves**: more rounds than there are units make no difference. -/
structure LoopsEnd (α : Type) [TextUnit α] : Prop where
  images : ∀ (line : List α) (fuel : Nat), line.length ≤ fuel → splitImages fuel line = splitImages line.length line
  inline : ∀ rule kind, (rule, kind) ∈ INLINE_MARKDOWN → ∀ (content : RichTextContent α) (fuel : Nat),
    content.text.length ≤ fuel → applyRule rule kind fuel content = applyRule rule kind content.text.length content

theorem loopsEnd : LoopsEnd α := by
  refine ⟨fun line fuel hfuel => ?_, fun rule kind hmem content fuel hfuel => ?_⟩
  · obtain ⟨more, rfl⟩ := Nat.exists_eq_add_of_le hfuel
    exact splitImages_done line.length line (Nat.le_refl _) more
  · obtain ⟨more, rfl⟩ := Nat.exists_eq_add_of_le hfuel
    exact (applyRule_done (width_pos (mem_rules hmem)) kind _ content (Nat.le_refl _)).2 more

end

/-! ## The order of the blocks -/

theorem taggedFrom_zipIdx : ∀ (lines : List (List UInt16)) (k : Nat),
    TaggedFrom Prod.snd k ((lines.zipIdx k).map (fun numbered => numbered.1.map (fun u => (u, some numbered.2))))
  | [],            _ => trivial
  | line :: lines, k => by
    rw [zipIdx_cons, map_cons]
    refine ⟨fun a ha t htag => ?_, taggedFrom_zipIdx lines (k + 1)⟩
    obtain ⟨u, _, rfl⟩ := mem_map.1 ha
    exact (Option.some.inj htag).symm

/-- **Blocks stand in the order of their lines**, and every loop ends, as long as no plain line comes behind quoted text
that waits. -/
theorem markdownBlocks_ordered (image : List UInt16 → Option M) (text : List UInt16) :
    LoopsEnd (UInt16 × Option Nat) ∧
      (plainBehindQuote (tagLines (splitLines text)) 0 false [] = false →
        (tags Prod.snd (readBlocks (blocksOfLines image (tagLines (splitLines text))))).Pairwise (· ≤ ·)) := by
  refine ⟨loopsEnd, fun hplain => ?_⟩
  have htag : TaggedFrom Prod.snd 0 (tagLines (splitLines text)) := taggedFrom_zipIdx (splitLines text) 0
  obtain ⟨k, hwalk⟩ := Inv.walk (s := ({} : State (UInt16 × Option Nat) M)) (fun _ => rfl) image _ 0 htag
    (Inv.empty Prod.snd) hplain
  exact hwalk.pushCode.flush.ordered

theorem markdownBlocks_ordered_quote :
    plainBehindQuote (tagLines (splitLines ([62, 32, 97, 10, 10, 98, 10, 45, 32, 99] : List UInt16))) 0 false [] = false ∧
      (tags Prod.snd (readBlocks (blocksOfLines (fun _ => (none : Option Unit))
        (tagLines (splitLines [62, 32, 97, 10, 10, 98, 10, 45, 32, 99]))))).Pairwise (· ≤ ·) :=
  ⟨by decide, (markdownBlocks_ordered (fun _ => (none : Option Unit)) [62, 32, 97, 10, 10, 98, 10, 45, 32, 99]).2 (by decide)⟩

/-- `> a` and `b`: the paragraph goes in front of the quote. -/
theorem quote_behind_paragraph :
    splitLines ([62, 32, 97, 10, 98] : List UInt16) = [[62, 32, 97], [98]] ∧
      tags Prod.snd (readBlocks (blocksOfLines (fun _ => (none : Option Unit))
        (tagLines (splitLines [62, 32, 97, 10, 98])))) = [1, 0] ∧
      ¬ (tags Prod.snd (readBlocks (blocksOfLines (fun _ => (none : Option Unit))
        (tagLines (splitLines [62, 32, 97, 10, 98]))))).Pairwise (· ≤ ·) := by
  decide

end MarkdownBlocks
end Crossgram
