import LineScript.Stream

/-!
The blocks of a Markdown document that matter to a casebook: headings that start with number
signs, and fenced code. A fence may be indented by up to three columns, which its content then
loses as well, and a fence that is not closed runs to the end. All other lines are prose.
-/

set_option autoImplicit false
set_option relaxedAutoImplicit false

namespace LineScript.Casebook

open Bytes

/-- A block with the line that it is reported at. The line of a fence is that of its first line
of content, and zero when it has none. -/
inductive Block where
  | heading (line : Nat) (text : Bytes)
  | fence (line : Nat) (language content : Bytes)
  deriving DecidableEq, Repr

/-- A line, and whether a newline ends it. -/
structure TextLine where
  text : Bytes
  isEnded : Bool
  deriving DecidableEq, Repr

/-- The lines of a document. -/
def textLines (document : Bytes) : List TextLine :=
  let (ended, tail) := cutLines document
  ended.map (⟨·, true⟩) ++ if tail.isEmpty then [] else [⟨tail, false⟩]

/-- A byte that counts as white space: a space, a tab, a newline or a carriage return. -/
def isBlank (byte : UInt8) : Bool :=
  byte == 0x20 || byte == 0x09 || byte == 0x0A || byte == 0x0D

/-- A byte that indents a line. -/
def isIndent (byte : UInt8) : Bool :=
  byte == 0x20 || byte == 0x09

/-- A text without white space at its end. -/
def trimmedRight (text : Bytes) : Bytes :=
  (text.reverse.dropWhile isBlank).reverse

/-- A text without white space at its ends. -/
def trimmed (text : Bytes) : Bytes :=
  trimmedRight (text.dropWhile isBlank)

/-- How far a tab leads from a column to the next multiple of four. -/
def tabWidth (column : Nat) : Nat :=
  4 - column % 4

/-- The columns that the blanks before a text take, from a column on, and the text. -/
def indentation (column : Nat) : Bytes → Nat × Bytes
  | [] => (column, [])
  | byte :: rest =>
    if byte = 0x20 then indentation (column + 1) rest
    else if byte = 0x09 then indentation (column + tabWidth column) rest
    else (column, byte :: rest)

/-- The text of a line that is indented by less than four columns, with its indentation. -/
def shallow? (text : Bytes) : Option (Nat × Bytes) :=
  let (width, rest) := indentation 0 text
  if width < 4 then some (width, rest) else none

/-! ### Headings -/

/-- A heading without the number signs that close it. They close it only after a blank. -/
def withoutClosing (text : Bytes) : Bytes :=
  let opened := (text.reverse.dropWhile (· == 0x23)).reverse
  if opened.length = text.length then text
  else if (opened.getLast?.map isBlank).getD true then trimmedRight opened
  else text

/-- The text of a line that is a heading: one to six number signs with a blank or nothing after
them. -/
def heading? (line : Bytes) : Option Bytes := do
  let (_, text) ← shallow? line
  let level := (text.takeWhile (· == 0x23)).length
  let rest := text.drop level
  guard (1 ≤ level && level ≤ 6)
  guard ((rest.head?.map isBlank).getD true)
  some (withoutClosing (trimmed rest))

/-! ### Fences -/

/-- An open fence. -/
structure Fence where
  mark : UInt8
  length : Nat
  indent : Nat
  language : Bytes
  deriving DecidableEq, Repr

/-- The fence that a line opens: three or more backticks or tildes, then what the fence holds.
The first word of that is the language. Between backticks there are no others, and a single
character at the end of a document does not count. -/
def fence? (line : TextLine) : Option Fence := do
  let (indent, text) ← shallow? line.text
  let mark ← text.head?
  guard (mark == 0x60 || mark == 0x7E)
  let length := (text.takeWhile (· == mark)).length
  guard (3 ≤ length)
  let rest := text.drop length
  let info := if !line.isEnded && rest.length ≤ 1 then [] else trimmed rest
  guard !(mark == 0x60 && info.contains 0x60)
  some ⟨mark, length, indent, info.takeWhile (· != 0x20)⟩

/-- Whether a line closes a fence. -/
def Fence.isClosedBy (fence : Fence) (line : Bytes) : Bool :=
  match shallow? line with
  | some (_, text) =>
    let length := (text.takeWhile (· == fence.mark)).length
    fence.length ≤ length && (text.drop length).all isBlank
  | none => false

/-- A text without `width` columns of blanks at its start, counted from `column`; none when it
has fewer. A tab that reaches further leaves spaces. -/
def outdented? (width column : Nat) : Bytes → Option Bytes
  | [] => if width ≤ column then some (List.replicate (column - width) 0x20) else none
  | byte :: rest =>
    if width ≤ column then some (List.replicate (column - width) 0x20 ++ byte :: rest)
    else if byte = 0x20 then outdented? width (column + 1) rest
    else if byte = 0x09 then outdented? width (column + tabWidth column) rest
    else none

/-- The text of a line of content without the indentation of its fence. A line that is indented
less loses all of it, unless it holds nothing else. -/
def Fence.contentText (fence : Fence) (line : Bytes) : Bytes :=
  match outdented? fence.indent 0 line with
  | some text => text
  | none => if line.all isIndent then line else line.dropWhile isIndent

/-- What a line adds to the content of a fence. It ends in a newline, also where the document ends
without one, except that nothing is left of a last line that only has the indentation. -/
def Fence.contentLine (fence : Fence) (line : TextLine) : Bytes :=
  let text := fence.contentText line.text
  if text.isEmpty && !line.isEnded then [] else text ++ [0x0A]

/-! ### Documents -/

/-- A fence being read: what opened it, the line of its content, and the content so far. -/
structure OpenFence where
  fence : Fence
  line : Nat
  content : Bytes
  deriving DecidableEq, Repr

/-- The block of a fence that ends. -/
def OpenFence.block (reading : OpenFence) : Block :=
  .fence reading.line reading.fence.language reading.content

/-- The fence with one more line of content. -/
def OpenFence.add (reading : OpenFence) (number : Nat) (line : TextLine) : OpenFence :=
  { reading with
    line := if reading.line = 0 then number else reading.line
    content := reading.content ++ reading.fence.contentLine line }

/-- The blocks of lines that are numbered from `number` on. -/
def blocksFrom (number : Nat) (reading : Option OpenFence) : List TextLine → List Block
  | [] => reading.toList.map OpenFence.block
  | line :: rest =>
    match reading with
    | some open' =>
      if open'.fence.isClosedBy line.text then
        open'.block :: blocksFrom (number + 1) none rest
      else blocksFrom (number + 1) (some (open'.add number line)) rest
    | none =>
      match heading? line.text, fence? line with
      | some text, _ => .heading number text :: blocksFrom (number + 1) none rest
      | none, some fence => blocksFrom (number + 1) (some ⟨fence, 0, []⟩) rest
      | none, none => blocksFrom (number + 1) none rest

/-- The blocks of a document, in order. -/
def blocks (document : Bytes) : List Block :=
  blocksFrom 1 none (textLines document)

end LineScript.Casebook
