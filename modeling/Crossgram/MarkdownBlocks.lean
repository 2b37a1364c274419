import Crossgram.RichTextTree
/-!
# MarkdownBlocks — markdown as a list of blocks (packages/bridge/src/rich-message.ts)

`markdownBlocks` walks the lines of a text.  Plain lines and quoted lines are gathered apart, each until a line of
another kind flushes both, the paragraph first; a quoted line flushes the paragraph too, a plain line does not flush the
quote.  Read from left to right the blocks follow the lines as long as no plain line stands behind quoted text that
waits.
-/
namespace Crossgram
namespace MarkdownBlocks

open InlineMarkdown RichTextTree

structure PageTableCell (α : Type) where
  header : Bool
  alignCenter : Bool
  alignRight : Bool
  text : TypeRichText α

/-- A block; `M` stands for what the `image` callback gives, kept with the target it was asked for. -/
inductive PageBlock (α M : Type)
  | paragraph (text : TypeRichText α)
  | blockquote (text : TypeRichText α)
  | preformatted (language text : List α)
  | table (rows : List (List (PageTableCell α)))
  | heading (level : Nat) (text : TypeRichText α)
  | list (items : List (TypeRichText α))
  | orderedList (items : List (List α × TypeRichText α))
  | media (target : List α) (block : M)

variable {α M : Type}

/-! ## Lines -/

section

variable [TextUnit α]

def trimStart (text : List α) : List α := text.dropWhile isSpace

def trimEnd (text : List α) : List α := (text.reverse.dropWhile isSpace).reverse

def trim (text : List α) : List α := trimEnd (trimStart text)

/-- `text.split(unit)` -/
def splitUnit (unit : UInt16) : List α → List (List α)
  | []        => [[]]
  | a :: text =>
    if isUnit unit a then [] :: splitUnit unit text
    else
      match splitUnit unit text with
      | []              => [[a]]
      | piece :: pieces => (a :: piece) :: pieces

def stripReturn (line : List α) : List α := if line.getLast?.any (isUnit 13) then line.dropLast else line

/-- `markdown.split(/\r?\n/u)` -/
def splitLines (text : List α) : List (List α) :=
  let pieces := splitUnit 10 text
  pieces.dropLast.map stripReturn ++ pieces.getLast?.toList

/-- `lines.join('\n')` -/
def joinLines (lines : List (List α)) : List α := List.intercalate [TextUnit.lit 10] lines

def isLineEnd (a : α) : Bool := isUnit 10 a || isUnit 13 a || isUnit 8232 a || isUnit 8233 a

/-- `(.*)$` -/
def restOfLine (rest : List α) : Option (List α) := if rest.any isLineEnd then none else some rest

/-- `\s+(.*)$` -/
def spacedRest (rest : List α) : Option (List α) :=
  if rest.head?.any isSpace then restOfLine (trimStart rest) else none

/-- `/^\s*```(\S*)\s*$/u` -/
def fence (line : List α) : Option (List α) :=
  let rest := trimStart line
  let language := (rest.drop 3).takeWhile (fun a => !isSpace a)
  if beginsWith [96, 96, 96] rest && (rest.drop (3 + language.length)).all isSpace then some language else none

/-- `/^(#{1,6})\s+(.*)$/u` -/
def heading (line : List α) : Option (Nat × List α) :=
  let level := (line.takeWhile (isUnit 35)).length
  if 1 ≤ level ∧ level ≤ 6 then (spacedRest (line.drop level)).map (fun text => (level, text)) else none

/-- `/^\s*>\s?(.*)$/u` -/
def quoted (line : List α) : Option (List α) :=
  let rest := trimStart line
  if beginsWith [62] rest then restOfLine (if (rest.drop 1).head?.any isSpace then rest.drop 2 else rest.drop 1) else none

/-- `/^\s*[-*+]\s+(.*)$/u` -/
def bullet (line : List α) : Option (List α) :=
  let rest := trimStart line
  if beginsWith [45] rest || beginsWith [42] rest || beginsWith [43] rest then spacedRest (rest.drop 1) else none

def isDigit (a : α) : Bool := decide (48 ≤ (TextUnit.code a).toNat ∧ (TextUnit.code a).toNat ≤ 57)

/-- `/^\s*(\d+)[.)]\s+(.*)$/u` -/
def ordered (line : List α) : Option (List α × List α) :=
  let rest := trimStart line
  let num := rest.takeWhile isDigit
  let rest := rest.drop num.length
  if !num.isEmpty && (beginsWith [46] rest || beginsWith [41] rest) then
    (spacedRest (rest.drop 1)).map (fun text => (num, text))
  else none

/-! ## Tables -/

def markdownTableRow (line : List α) : Option (List (List α)) :=
  let trimmed := trim line
  if trimmed.any (isUnit 124) then
    let opened := if trimmed.head?.any (isUnit 124) then trimmed.drop 1 else trimmed
    let closed := if opened.getLast?.any (isUnit 124) then opened.dropLast else opened
    let cells := (splitUnit 124 closed).map trim
    if cells.length > 1 then some cells else none
  else none

/-- `/^:?-+:?$/` -/
def isDelimiter (cell : List α) : Bool :=
  let rest := if beginsWith [58] cell then cell.drop 1 else cell
  let dashes := rest.takeWhile (isUnit 45)
  let tail := (rest.drop dashes.length).map TextUnit.code
  !dashes.isEmpty && (decide (tail = []) || decide (tail = [58]))

def tableRows : List (List α) → List (List (List α))
  | []            => []
  | line :: lines =>
    match markdownTableRow line with
    | some row => row :: tableRows lines
    | none     => []

def tableCell (header : Bool) (alignment text : List α) : PageTableCell α :=
  { header
    alignCenter := beginsWith [58] alignment && alignment.getLast?.any (isUnit 58)
    alignRight := !beginsWith [58] alignment && alignment.getLast?.any (isUnit 58)
    text := markdownRichText text }

def rowCells (header : Bool) (delimiter row : List (List α)) : List (PageTableCell α) :=
  delimiter.zipIdx.map (fun column => tableCell header column.1 ((row[column.2]?).getD []))

def markdownTable (line : List α) (rest : List (List α)) : Option (List (List (PageTableCell α)) × Nat) :=
  match markdownTableRow line, markdownTableRow (rest.head?.getD []) with
  | some header, some delimiter =>
    if header.length = delimiter.length ∧ delimiter.all isDelimiter = true then
      let rows := tableRows (rest.drop 1)
      some (rowCells true delimiter header :: rows.map (rowCells false delimiter), rows.length + 1)
    else none
  | _, _                        => none

/-! ## Images -/

/-- `/!\[([^\]]*)\]\(([^)\s]+)\)/` where it begins. -/
def matchImage (text : List α) : Option (List α × List α) :=
  let alt := (text.drop 2).takeWhile (fun a => !isUnit 93 a)
  let target := (text.drop (alt.length + 4)).takeWhile (fun a => !isUnit 41 a && !isSpace a)
  if beginsWith [33, 91] text && beginsWith [93, 40] (text.drop (alt.length + 2)) && !target.isEmpty &&
      beginsWith [41] (text.drop (alt.length + 4 + target.length)) then some (alt, target)
  else none

/-- `line.split(MARKDOWN_IMAGE)`: the pieces, each with the image behind it. -/
def splitImages : Nat → List α → List (List α × Option (List α × List α))
  | 0,        line => [(line, none)]
  | fuel + 1, line =>
    match exec matchImage line with
    | none                        => [(line, none)]
    | some (offset, (alt, target)) =>
      (line.take offset, some (alt, target)) :: splitImages fuel (line.drop (offset + (alt.length + target.length + 5)))

/-! ## The walk -/

inductive LineKind (α : Type)
  | codeEnd
  | codeLine
  | fence (language : List α)
  | blank
  | table (rows : List (List (PageTableCell α))) (further : Nat)
  | heading (level : Nat) (text : List α)
  | quoted (text : List α)
  | bullet (item : List α)
  | ordered (num item : List α)
  | plain

def lineKind (inCode : Bool) (line : List α) (rest : List (List α)) : LineKind α :=
  if inCode then if beginsWith [96, 96, 96] (trimStart line) then .codeEnd else .codeLine
  else
    match fence line with
    | some language => .fence language
    | none          =>
      if (trim line).isEmpty then .blank
      else
        match markdownTable line rest with
        | some (rows, further) => .table rows further
        | none                 =>
          match heading line with
          | some (level, text) => .heading level text
          | none               =>
            match quoted line with
            | some text => .quoted text
            | none      =>
              match bullet line with
              | some item => .bullet item
              | none      =>
                match ordered line with
                | some (num, item) => .ordered num item
                | none             => .plain

end

structure State (α M : Type) where
  blocks : List (PageBlock α M) := []
  paragraph : List α := []
  code : Option (List α × List (List α)) := none
  quote : List (List α) := []

namespace State

variable [TextUnit α]

def push (s : State α M) (block : PageBlock α M) : State α M := { s with blocks := s.blocks ++ [block] }

def flushParagraph (s : State α M) : State α M :=
  let text := trim s.paragraph
  let s := { s with paragraph := [] }
  if text.isEmpty then s else s.push (.paragraph (markdownRichText text))

def flushQuote (s : State α M) : State α M :=
  let text := trim (joinLines s.quote)
  let s := { s with quote := [] }
  if text.isEmpty then s else s.push (.blockquote (markdownRichText text))

def flush (s : State α M) : State α M := s.flushParagraph.flushQuote

def appendPiece (image : List UInt16 → Option M) (s : State α M) (piece : List α × Option (List α × List α)) :
    State α M :=
  let s := { s with paragraph := s.paragraph ++ piece.1 }
  match piece.2 with
  | none               => s
  | some (alt, target) =>
    match image (target.map TextUnit.code) with
    | none       => { s with paragraph := s.paragraph ++ (if alt.isEmpty then target else alt) }
    | some block => s.flushParagraph.push (.media target block)

def appendLine (image : List UInt16 → Option M) (s : State α M) (line : List α) : State α M :=
  (splitImages line.length line).foldl (appendPiece image) s

def pushBullet (s : State α M) (item : TypeRichText α) : State α M :=
  match s.blocks.getLast? with
  | some (.list items) => { s with blocks := s.blocks.dropLast ++ [.list (items ++ [item])] }
  | _                  => s.push (.list [item])

def pushOrdered (s : State α M) (num : List α) (item : TypeRichText α) : State α M :=
  match s.blocks.getLast? with
  | some (.orderedList items) => { s with blocks := s.blocks.dropLast ++ [.orderedList (items ++ [(num, item)])] }
  | _                         => s.push (.orderedList [(num, item)])

def pushCode (s : State α M) : State α M :=
  match s.code with
  | some (language, lines) => { s.push (.preformatted language (joinLines lines)) with code := none }
  | none                   => s

def handleLine (image : List UInt16 → Option M) (s : State α M) (line : List α) : LineKind α → State α M
  | .codeEnd            => s.pushCode
  | .codeLine           => { s with code := s.code.map (fun code => (code.1, code.2 ++ [line])) }
  | .fence language     => { s.flush with code := some (language, []) }
  | .blank              => s.flush
  | .table rows _       => s.flush.push (.table rows)
  | .heading level text => s.flush.push (.heading level (markdownRichText (trim text)))
  | .quoted text        => { s.flushParagraph with quote := s.quote ++ [text] }
  | .bullet item        => s.flush.pushBullet (markdownRichText (trim item))
  | .ordered num item   => s.flush.pushOrdered num (markdownRichText (trim item))
  | .plain              =>
    appendLine image (if s.paragraph.isEmpty then s else { s with paragraph := s.paragraph ++ [TextUnit.lit 10] }) line

end State

section

variable [TextUnit α]

def LineKind.further : LineKind α → Nat
  | .table _ further => further
  | _                => 0

/-- The loop over the lines, `further` of which are taken already. -/
def walk (image : List UInt16 → Option M) : List (List α) → Nat → State α M → State α M
  | [],           _,           s => s
  | _ :: rest,    further + 1, s => walk image rest further s
  | line :: rest, 0,           s =>
    let kind := lineKind s.code.isSome line rest
    walk image rest kind.further (s.handleLine image line kind)

def blocksOfLines (image : List UInt16 → Option M) (lines : List (List α)) : List (PageBlock α M) :=
  (walk image lines 0 {}).pushCode.flush.blocks

def markdownBlocks (image : List UInt16 → Option M) (markdown : List α) : List (PageBlock α M) :=
  blocksOfLines image (splitLines markdown)

end

/-! ## Reading the blocks -/

def PageBlock.read : PageBlock α M → List α
  | .paragraph text             => text.read
  | .blockquote text            => text.read
  | .preformatted language text => language ++ text
  | .table rows                 => rows.flatMap (fun row => row.flatMap (fun cell => cell.text.read))
  | .heading _ text             => text.read
  | .list items                 => items.flatMap TypeRichText.read
  | .orderedList items          => items.flatMap (fun item => item.1 ++ item.2.read)
  | .media target _             => target

def readBlocks (blocks : List (PageBlock α M)) : List α := blocks.flatMap PageBlock.read

/-- A unit and the number of the line it was taken from. -/
instance : TextUnit (UInt16 × Option Nat) := ⟨Prod.fst, fun u => (u, none), fun _ => rfl⟩

def tagLines (lines : List (List UInt16)) : List (List (UInt16 × Option Nat)) :=
  lines.zipIdx.map (fun numbered => numbered.1.map (fun u => (u, some numbered.2)))

/-! ## The condition -/

section

variable [TextUnit α]

def LineKind.quoteBehind (quote : List (List α)) : LineKind α → List (List α)
  | .quoted text => quote ++ [text]
  | .plain       => quote
  | .codeLine    => quote
  | .codeEnd     => quote
  | _            => []

def LineKind.inCodeBehind (inCode : Bool) : LineKind α → Bool
  | .fence _ => true
  | .codeEnd => false
  | _        => inCode

def LineKind.isPlain : LineKind α → Bool
  | .plain => true
  | _      => false

/-- **A plain line stands behind quoted text that is not blank**, with no line between them that flushes it. -/
def plainBehindQuote : List (List α) → Nat → Bool → List (List α) → Bool
  | [],           _,           _,      _     => false
  | _ :: rest,    further + 1, inCode, quote => plainBehindQuote rest further inCode quote
  | line :: rest, 0,           inCode, quote =>
    let kind := lineKind inCode line rest
    (kind.isPlain && !(trim (joinLines quote)).isEmpty) ||
      plainBehindQuote rest kind.further (kind.inCodeBehind inCode) (kind.quoteBehind quote)

end

end MarkdownBlocks
end Crossgram
