import LineScript.Yaml.Characters

/-!
A place in a YAML document. Lines end in a newline, a carriage return, both, or one of three other
characters, two of which a text that spans lines keeps. A cursor knows its line and column, and how
many lines ended since the last character that was no blank.
-/

set_option autoImplicit false
set_option relaxedAutoImplicit false

namespace LineScript.Yaml

/-- A character that ends a line. -/
def isBreak (char : Char) : Bool :=
  char == '\n' || char == '\r' || char.toNat == 0x85 || char.toNat == 0x2028 ||
    char.toNat == 0x2029

def isBlank (char : Char) : Bool :=
  char == ' ' || char == '\t'

/-- A blank, a break, or the end of the document. -/
def endsWord (char : Option Char) : Bool :=
  char.all fun char ↦ isBlank char || isBreak char

/-- A break or the end of the document. -/
def endsLine (char : Option Char) : Bool :=
  char.all isBreak

/-- A character of a name: a letter or a digit in ASCII, a hyphen or an underscore. -/
def isNameChar (char : Char) : Bool :=
  char.isAlphanum || char == '-' || char == '_'

/-- A place in a document. -/
structure Cursor where
  /-- The characters from here on. -/
  rest : List Char
  /-- Whether a fault follows the characters. -/
  isCut : Bool
  /-- How many characters stand before. -/
  index : Nat := 0
  line : Nat := 0
  column : Nat := 0
  /-- How many lines ended since the last character that was no blank. -/
  newlines : Nat := 0
  deriving DecidableEq, Repr

namespace Cursor

/-- The character here. -/
def head? (cursor : Cursor) : Option Char :=
  cursor.rest.head?

/-- The character `offset` places further. -/
def ahead? (cursor : Cursor) (offset : Nat) : Option Char :=
  cursor.rest[offset]?

/-- Whether a character is here. -/
def isAt (cursor : Cursor) (char : Char) : Bool :=
  cursor.head? == some char

/-- Fails where a fault follows within `count` characters. -/
def need (cursor : Cursor) (count : Nat) : Option Unit :=
  if cursor.isCut ∧ (cursor.rest.drop (count - 1)).isEmpty then none else some ()

/-- The place after `count` characters of the line. -/
def skip (cursor : Cursor) (count : Nat) : Cursor :=
  { cursor with
    rest := cursor.rest.drop count
    index := cursor.index + count
    column := cursor.column + count
    newlines := if (cursor.rest.take count).all isBlank then cursor.newlines else 0 }

/-- The characters of the line that satisfy a condition, and the place after them. -/
def takeWhile (cursor : Cursor) (condition : Char → Bool) : Option (List Char × Cursor) := do
  let taken := cursor.rest.takeWhile condition
  let cursor := cursor.skip taken.length
  cursor.need 1
  return (taken, cursor)

/-- The place after the characters of the line that satisfy a condition. -/
def skipWhile (cursor : Cursor) (condition : Char → Bool) : Option Cursor :=
  (cursor.takeWhile condition).map (·.2)

/-- The end of the line. -/
def toLineEnd (cursor : Cursor) : Option Cursor :=
  cursor.skipWhile (!isBreak ·)

/-- The place after a break of `length` characters. -/
def pastBreak (cursor : Cursor) (length : Nat) : Cursor :=
  { cursor with
    rest := cursor.rest.drop length
    index := cursor.index + length
    line := cursor.line + 1
    column := 0
    newlines := cursor.newlines + 1 }

/-- The break here as a text keeps it, if there is one, and the place after it. -/
def takeBreak (cursor : Cursor) : List Char × Cursor :=
  match cursor.rest with
  | '\r' :: '\n' :: _ => (['\n'], cursor.pastBreak 2)
  | char :: _ =>
    if char.toNat = 0x2028 ∨ char.toNat = 0x2029 then ([char], cursor.pastBreak 1)
    else if isBreak char then (['\n'], cursor.pastBreak 1)
    else ([], cursor)
  | [] => ([], cursor)

/-- The place after the break here, if there is one. -/
def skipBreak (cursor : Cursor) : Option Cursor :=
  if endsLine cursor.head? then do
    cursor.need 2
    return cursor.takeBreak.2
  else some cursor

/-- Whether a mark of three equal characters stands here alone at the start of a line. -/
def isAtMark (cursor : Cursor) (char : Char) : Bool :=
  cursor.column == 0 && cursor.rest.take 3 == [char, char, char] && endsWord (cursor.ahead? 3)

/-- Whether a document ends or another starts here. -/
def isAtBoundary (cursor : Cursor) : Bool :=
  cursor.isAtMark '-' || cursor.isAtMark '.'

/-! ### Comments -/

/-- How far to look for a comment. -/
def commentReach : Nat := 512

/-- Skips a comment that stands on the line of what was read last, only blanks before it. -/
def skipLineComment (cursor : Cursor) : Option Cursor :=
  let blanks := (cursor.rest.takeWhile isBlank).length
  if cursor.newlines = 0 ∧ blanks < commentReach ∧ cursor.ahead? blanks = some '#' then
    (cursor.skip blanks).toLineEnd
  else some cursor

/-- Skips `count` characters that are blanks and single breaks. -/
def skipFiller : (count : Nat) → Cursor → Cursor
  | 0, cursor => cursor
  | count + 1, cursor =>
    match cursor.rest with
    | '\r' :: '\n' :: _ => skipFiller (count - 1) (cursor.pastBreak 2)
    | char :: _ =>
      if isBreak char then skipFiller count (cursor.pastBreak 1)
      else skipFiller count (cursor.skip 1)
    | [] => cursor

/-- Skips a comment and the comments on the lines after it, with blank lines between them, at most
`fuel` of them. The place is at the end of the last one's line. -/
def skipComments : (fuel : Nat) → Cursor → Option Cursor
  | 0, cursor => some cursor
  | fuel + 1, cursor => do
    let cursor ← cursor.toLineEnd
    let filler := (cursor.rest.takeWhile fun char ↦
      isBlank char || char == '\n' || char == '\r').length
    if 0 < filler ∧ filler < commentReach ∧ cursor.ahead? filler = some '#' then
      skipComments fuel (cursor.skipFiller filler)
    else some cursor

end Cursor

end LineScript.Yaml
