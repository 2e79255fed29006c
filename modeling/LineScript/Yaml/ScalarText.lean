import LineScript.Yaml.Token

/-!
The texts of scalars in a YAML document. A scalar without quotes, or in quotes, may span lines:
a line end in it counts as a space, and further line ends count as themselves. A block scalar holds
the lines that are indented further than what is around it, with their ends, or folded likewise.
-/

set_option autoImplicit false
set_option relaxedAutoImplicit false

namespace LineScript.Yaml

open Bytes

/-! ### Gaps between words -/

/-- Blanks and breaks between two words of a scalar. -/
structure Gap where
  /-- The blanks, as long as there is no break. -/
  blanks : List Char := []
  hasBreak : Bool := false
  /-- The first break, if it counts. -/
  first : List Char := []
  /-- The other breaks. -/
  others : List Char := []
  deriving DecidableEq, Repr

/-- What a gap leaves in the text. -/
def Gap.text (gap : Gap) : List Char :=
  if !gap.hasBreak then gap.blanks
  else if gap.first.head? = some '\n' then if gap.others.isEmpty then [' '] else gap.others
  else gap.first ++ gap.others

/-- Reads the breaks of at most `fuel` further lines of a gap, and the blanks around them. No tab
may stand left of a column. -/
def furtherBreaks (column : Nat) : (fuel : Nat) → Cursor → Option (List Char × Cursor)
  | 0, cursor => some ([], cursor)
  | fuel + 1, cursor => do
    let blanks := cursor.rest.takeWhile isBlank
    guard !((blanks.take (column - cursor.column)).contains '\t')
    let cursor := cursor.skip blanks.length
    cursor.need 1
    if cursor.head?.any isBreak then
      cursor.need 2
      let (text, cursor) := cursor.takeBreak
      let (more, cursor) ← furtherBreaks column fuel cursor
      return (text ++ more, cursor)
    else return ([], cursor)

/-- Reads a gap of at most `fuel` breaks to its end. On a line after the first, no tab may stand
left of a column. -/
def gapFrom (column fuel : Nat) (cursor : Cursor) : Option (Gap × Cursor) := do
  let (blanks, cursor) ← cursor.takeWhile isBlank
  if cursor.head?.any isBreak then
    cursor.need 2
    let (first, cursor) := cursor.takeBreak
    let (others, cursor) ← furtherBreaks column fuel cursor
    return ({ hasBreak := true, first, others }, cursor)
  else return ({ blanks }, cursor)

/-- Reads a gap after a break that does not count. -/
def hiddenGapFrom (fuel : Nat) (cursor : Cursor) : Option (Gap × Cursor) := do
  let (others, cursor) ← furtherBreaks 0 fuel cursor
  return ({ hasBreak := true, others }, cursor)

/-! ### Scalars without quotes -/

/-- The word of a scalar without quotes at the start of characters. A colon ends it before a blank
or a break, and in flow style a comma, a question mark or a bracket ends it wherever it stands. -/
def plainWord (inFlow : Bool) : List Char → List Char
  | [] => []
  | char :: rest =>
    let isSeparator :=
      (char == ':' && endsWord rest.head?) || (inFlow && ",?[]\x7b\x7d".toList.contains char)
    if isBlank char || isBreak char || isSeparator then [] else char :: plainWord inFlow rest

/-- Reads a scalar without quotes, of at most `fuel` words, from a gap in it on. Its further lines
start at a column or right of it, except in flow style. The result has the text from the gap on,
and tells whether there is a break after it. -/
def plainFrom (inFlow : Bool) (column : Nat) :
    (fuel : Nat) → Gap → Cursor → Option (List Char × Bool × Cursor)
  | 0, gap, cursor => some ([], gap.hasBreak, cursor)
  | fuel + 1, gap, cursor => do
    cursor.need 4
    let word := plainWord inFlow cursor.rest
    if word.isEmpty || cursor.isAtBoundary || cursor.isAt '#' then
      return ([], gap.hasBreak, cursor)
    else
      let cursor := cursor.skip word.length
      cursor.need 2
      let length := (cursor.rest.takeWhile fun char ↦ isBlank char || isBreak char).length
      let (next, cursor) ← gapFrom column length cursor
      let (text, hasBreak, cursor) ←
        if length = 0 ∨ (!inFlow ∧ cursor.column < column) then some ([], next.hasBreak, cursor)
        else plainFrom inFlow column fuel next cursor
      return (gap.text ++ word ++ text, hasBreak, cursor)

/-- Reads a scalar without quotes. -/
def plainScalar (inFlow : Bool) (column : Nat) (cursor : Cursor) :
    Option (Bytes × Bool × Cursor) := do
  let (text, hasBreak, cursor) ← plainFrom inFlow column (cursor.rest.length + 1) {} cursor
  return (encoded text, hasBreak, cursor)

/-! ### Scalars in quotes -/

/-- The code point of a letter after a backslash. -/
def escapedCode? (letter : Char) : Option Nat :=
  match letter with
  | '0' => some 0x00
  | 'a' => some 0x07
  | 'b' => some 0x08
  | 't' | '\t' => some 0x09
  | 'n' => some 0x0A
  | 'v' => some 0x0B
  | 'f' => some 0x0C
  | 'r' => some 0x0D
  | 'e' => some 0x1B
  | ' ' => some 0x20
  | '\x22' => some 0x22
  | '\x27' => some 0x27
  | '\\' => some 0x5C
  | 'N' => some 0x85
  | '_' => some 0xA0
  | 'L' => some 0x2028
  | 'P' => some 0x2029
  | _ => none

/-- How many hexadecimal digits follow a letter after a backslash. -/
def codeLength? (letter : Char) : Option Nat :=
  match letter with
  | 'x' => some 2
  | 'u' => some 4
  | 'U' => some 8
  | _ => none

/-- Reads what stands after a backslash, from the letter on. -/
def escapedChar (cursor : Cursor) : Option (Char × Cursor) := do
  let letter ← cursor.head?
  match codeLength? letter with
  | some length =>
    let cursor := cursor.skip 1
    cursor.need length
    let digits := encoded (cursor.rest.take length)
    guard (digits.length == length && digits.all isHexDigit)
    let code := digits.foldl (fun total digit ↦ total * 16 + (hexValue? digit).getD 0) 0
    guard code.isValidChar
    return (Char.ofNat code, cursor.skip length)
  | none => return (Char.ofNat (← escapedCode? letter), cursor.skip 1)

/-- Reads a word in quotes, of at most `fuel` characters, up to a blank, a break or the closing
quote. In double quotes, a backslash before a break ends the word and hides the break. The result
tells whether it did. -/
def quotedWord (quote : Char) : (fuel : Nat) → Cursor → Option (List Char × Bool × Cursor)
  | 0, cursor => some ([], false, cursor)
  | fuel + 1, cursor => do
    cursor.need 2
    match cursor.head? with
    | none => return ([], false, cursor)
    | some char =>
      if isBlank char || isBreak char then return ([], false, cursor)
      else if char = quote then
        if quote = '\x27' ∧ cursor.ahead? 1 = some quote then
          let (word, isHidden, cursor) ← quotedWord quote fuel (cursor.skip 2)
          return (quote :: word, isHidden, cursor)
        else return ([], false, cursor)
      else if quote = '\x22' ∧ char = '\\' then
        if (cursor.ahead? 1).any isBreak then
          cursor.need 3
          return ([], true, (cursor.skip 1).takeBreak.2)
        else
          let (escaped, cursor) ← escapedChar (cursor.skip 1)
          let (word, isHidden, cursor) ← quotedWord quote fuel cursor
          return (escaped :: word, isHidden, cursor)
      else
        let (word, isHidden, cursor) ← quotedWord quote fuel (cursor.skip 1)
        return (char :: word, isHidden, cursor)

/-- Reads a scalar in quotes, of at most `fuel` words with at most `length` characters each, to
the closing quote. -/
def quotedFrom (quote : Char) (length : Nat) : (fuel : Nat) → Cursor → Option (List Char × Cursor)
  | 0, _ => none
  | fuel + 1, cursor => do
    cursor.need 4
    guard !cursor.isAtBoundary
    guard cursor.head?.isSome
    let (word, isHidden, cursor) ← quotedWord quote length cursor
    cursor.need 1
    if cursor.isAt quote then return (word, cursor.skip 1)
    else
      let (gap, cursor) ←
        if isHidden then hiddenGapFrom length cursor else gapFrom 0 length cursor
      let (text, cursor) ← quotedFrom quote length fuel cursor
      return (word ++ gap.text ++ text, cursor)

/-- Reads a scalar in quotes from its opening quote on. -/
def quotedScalar (quote : Char) (cursor : Cursor) : Option (Bytes × Cursor) := do
  let length := cursor.rest.length
  let (text, cursor) ← quotedFrom quote length length (cursor.skip 1)
  return (encoded text, cursor)

/-! ### Block scalars -/

/-- What becomes of the breaks at the end of a block scalar. -/
inductive Chomping where
  /-- All go. -/
  | strip
  /-- One stays. -/
  | clip
  /-- All stay. -/
  | keep
  deriving DecidableEq, Repr

/-- The chomping that a sign stands for. -/
def Chomping.ofSign? (char : Option Char) : Option Chomping :=
  match char with
  | some '+' => some .keep
  | some '-' => some .strip
  | _ => none

/-- Reads the sign of a chomping, if there is one. -/
def chompingSign (cursor : Cursor) : Chomping × Cursor :=
  match Chomping.ofSign? cursor.head? with
  | some chomping => (chomping, cursor.skip 1)
  | none => (.clip, cursor)

/-- Reads the digit of an indentation, if there is one. It must not be zero. -/
def indentDigit (cursor : Cursor) : Option (Nat × Cursor) :=
  match cursor.head? with
  | some char =>
    if char = '0' then none
    else if char.isDigit then some (char.toNat - 0x30, cursor.skip 1)
    else some (0, cursor)
  | none => some (0, cursor)

/-- Reads what follows the character that announces a block scalar, to the end of the line. -/
def blockHeader (cursor : Cursor) : Option (Chomping × Nat × Cursor) := do
  cursor.need 2
  let (chomping, cursor, digit) ← match Chomping.ofSign? cursor.head? with
    | some chomping => do
      let (digit, cursor) ← indentDigit (cursor.skip 1)
      some (chomping, cursor, digit)
    | none => do
      let (digit, cursor) ← indentDigit cursor
      let (chomping, cursor) := if digit = 0 then (.clip, cursor) else chompingSign cursor
      some (chomping, cursor, digit)
  let cursor ← cursor.skipWhile isBlank
  let cursor ← if cursor.isAt '#' then cursor.toLineEnd else some cursor
  guard (endsLine cursor.head?)
  return (chomping, digit, ← cursor.skipBreak)

/-- Reads the blank lines before a line of a block scalar, at most `fuel`, and the spaces that
indent the line; with no indentation known, all of them. The result has the breaks and the widest
indentation met. -/
def blockBreaks (indent : Nat) :
    (fuel widest : Nat) → Cursor → Option (List Char × Nat × Cursor)
  | 0, widest, cursor => some ([], widest, cursor)
  | fuel + 1, widest, cursor => do
    let spaces := (cursor.rest.takeWhile (· == ' ')).length
    let cursor := cursor.skip (if indent = 0 then spaces else min spaces (indent - cursor.column))
    cursor.need 1
    let widest := max widest cursor.column
    guard !((indent == 0 || cursor.column < indent) && cursor.isAt '\t')
    if cursor.head?.any isBreak then
      cursor.need 2
      let (text, cursor) := cursor.takeBreak
      let (breaks, widest, cursor) ← blockBreaks indent fuel widest cursor
      return (text ++ breaks, widest, cursor)
    else return ([], widest, cursor)

/-- What stands between two lines of a block scalar: the break at the end of the first, and the
breaks of blank lines. -/
structure LineGap where
  lineBreak : List Char := []
  blankBreaks : List Char := []
  /-- Whether the first line starts with a blank. -/
  isAfterBlank : Bool := false
  deriving DecidableEq, Repr

/-- What a gap leaves in the text. In a folded scalar, the break between two lines that do not
start with blanks counts as a space, or not at all before blank lines. -/
def LineGap.text (gap : LineGap) (isFolded isBeforeBlank : Bool) : List Char :=
  if isFolded && !gap.isAfterBlank && !isBeforeBlank && gap.lineBreak == ['\n'] then
    if gap.blankBreaks.isEmpty then [' '] else gap.blankBreaks
  else gap.lineBreak ++ gap.blankBreaks

/-- Reads the lines of a block scalar, at most `fuel` with blank ones, with an indentation. The
result has the text from a gap on, and the gap after the last line. -/
def blockLines (isFolded : Bool) (indent : Nat) :
    (fuel : Nat) → LineGap → Cursor → Option (List Char × LineGap × Cursor)
  | 0, gap, cursor => some ([], gap, cursor)
  | fuel + 1, gap, cursor => do
    if cursor.column = indent ∧ cursor.head?.isSome then
      let startsBlank := cursor.head?.any isBlank
      let (line, cursor) ← cursor.takeWhile (!isBreak ·)
      cursor.need 2
      let (lineBreak, cursor) := cursor.takeBreak
      let (blankBreaks, _, cursor) ← blockBreaks indent fuel 0 cursor
      let next : LineGap := { lineBreak, blankBreaks, isAfterBlank := startsBlank }
      let (text, last, cursor) ← blockLines isFolded indent fuel next cursor
      return (gap.text isFolded startsBlank ++ line ++ text, last, cursor)
    else return ([], gap, cursor)

/-- Reads a block scalar in something that starts at column `around`, or at no column. -/
def blockScalar (isFolded : Bool) (around : Int) (cursor : Cursor) : Option (Bytes × Cursor) := do
  let (chomping, digit, cursor) ← blockHeader (cursor.skip 1)
  let given := if digit = 0 then 0 else digit + around.toNat
  let (blankBreaks, widest, cursor) ← blockBreaks given (cursor.rest.length + 1) 0 cursor
  let indent := if given = 0 then max (max widest (around + 1).toNat) 1 else given
  let (text, last, cursor) ←
    blockLines isFolded indent (cursor.rest.length + 1) { blankBreaks } cursor
  let ending := match chomping with
    | .strip => []
    | .clip => last.lineBreak
    | .keep => last.lineBreak ++ last.blankBreaks
  return (encoded (text ++ ending), cursor)

end LineScript.Yaml
