import LineScript.Text.Utf8

/-!
Texts and keys in TOML. A text in double quotes may hold escapes, one in single quotes stands for
itself, and three quotes enclose a text of several lines, which loses a line end at its start. In
such a text a backslash before a line end removes all white space up to the next character.
-/

set_option autoImplicit false
set_option relaxedAutoImplicit false

namespace LineScript.Toml

open Bytes

def isSpace (byte : UInt8) : Bool :=
  byte == 0x20 || byte == 0x09

/-- A byte of a line end. -/
def isLineEnd (byte : UInt8) : Bool :=
  byte == 0x0A || byte == 0x0D

/-- White space, line ends included. -/
def isWhite (byte : UInt8) : Bool :=
  isSpace byte || isLineEnd byte

def skipSpaces (text : Bytes) : Bytes :=
  text.dropWhile isSpace

/-! ### Escapes -/

/-- The UTF-8 bytes of a code point written in hexadecimal digits. -/
def codePoint? (digits : Bytes) : Option Bytes := do
  let values ← digits.mapM hexValue?
  let code := values.foldl (fun total digit ↦ total * 16 + digit) 0
  if code.isValidChar then some (String.utf8EncodeChar (Char.ofNat code)) else none

/-- The byte that a letter after a backslash stands for. -/
def escaped? (letter : UInt8) : Option UInt8 :=
  match letter with
  | 0x62 => some 0x08
  | 0x74 => some 0x09
  | 0x6E => some 0x0A
  | 0x66 => some 0x0C
  | 0x72 => some 0x0D
  | 0x22 => some 0x22
  | 0x5C => some 0x5C
  | _ => none

/-- The text that a text with escapes stands for. -/
def unescaped? : Bytes → Option Bytes
  | [] => some []
  | 0x5C :: 0x75 :: a :: b :: c :: d :: rest => do
    return (← codePoint? [a, b, c, d]) ++ (← unescaped? rest)
  | 0x5C :: 0x55 :: a :: b :: c :: d :: e :: f :: g :: h :: rest => do
    return (← codePoint? [a, b, c, d, e, f, g, h]) ++ (← unescaped? rest)
  | 0x5C :: letter :: rest => do return (← escaped? letter) :: (← unescaped? rest)
  | byte :: rest => do return byte :: (← unescaped? rest)

/-! ### Texts on one line -/

/-- Cuts a text at the double quote that ends it. A byte after a backslash ends nothing. -/
def cutBasic : Bytes → Option (Bytes × Bytes)
  | [] => none
  | 0x22 :: rest => some ([], rest)
  | 0x5C :: byte :: rest => do
    let (text, after) ← cutBasic rest
    if isLineEnd byte then none else some (0x5C :: byte :: text, after)
  | byte :: rest => do
    let (text, after) ← cutBasic rest
    if isLineEnd byte then none else some (byte :: text, after)

/-- Cuts a text at the single quote that ends it. -/
def cutLiteral : Bytes → Option (Bytes × Bytes)
  | [] => none
  | 0x27 :: rest => some ([], rest)
  | byte :: rest => do
    let (text, after) ← cutLiteral rest
    if isLineEnd byte then none else some (byte :: text, after)

/-- Reads a text after its opening double quote. -/
def basicText (text : Bytes) : Option (Bytes × Bytes) := do
  let (text, after) ← cutBasic text
  return (← unescaped? text, after)

/-! ### Texts on several lines -/

/-- Whether the bytes read so far, the last one first, end in two quotes that no backslash
precedes. Three more would then be too many. -/
def endsInTwo (quote : UInt8) (isEscapable : Bool) : Bytes → Bool
  | first :: second :: rest =>
    first == quote && second == quote && !(isEscapable && rest.head? == some 0x5C)
  | _ => false

/-- Cuts a text at the three quotes that end it. One or two quotes right before them belong to
the text. `seen` holds the bytes read so far, the last one first. -/
def cutLong (quote : UInt8) (isEscapable : Bool) (seen : Bytes) : Bytes → Option (Bytes × Bytes)
  | [] => none
  | [byte] => cutLong quote isEscapable (byte :: seen) []
  | first :: second :: rest =>
    if isEscapable ∧ first = 0x5C then
      cutLong quote isEscapable (second :: first :: seen) rest
    else if first = quote ∧ second = quote ∧ rest.head? = some quote then
      if rest.tail.head? ≠ some quote then some (seen.reverse, rest.tail)
      else if endsInTwo quote isEscapable seen then none
      else cutLong quote isEscapable (first :: seen) (second :: rest)
    else cutLong quote isEscapable (first :: seen) (second :: rest)

/-- A text without the line end at its start. -/
def withoutLineEnd : Bytes → Bytes
  | 0x0A :: rest => rest
  | 0x0D :: 0x0A :: rest => rest
  | text => text

/-- A text without what backslashes at the ends of lines remove. -/
def joinedLines : Bytes → Bytes
  | [] => []
  | [byte] => [byte]
  | first :: second :: rest =>
    if first ≠ 0x5C then first :: joinedLines (second :: rest)
    else if second = 0x5C then first :: second :: joinedLines rest
    else if ((second :: rest).takeWhile isWhite).contains 0x0A then
      joinedLines ((second :: rest).dropWhile isWhite)
    else first :: joinedLines (second :: rest)
termination_by text => text.length
decreasing_by
  · exact Nat.lt_succ_self _
  · exact Nat.lt_of_succ_lt (Nat.lt_succ_self _)
  · exact Nat.lt_succ_of_le (List.dropWhile_sublist _).length_le
  · exact Nat.lt_succ_self _

/-- Reads a text after its three opening double quotes. -/
def longBasicText (text : Bytes) : Option (Bytes × Bytes) := do
  let (text, after) ← cutLong 0x22 true [] text
  return (← unescaped? (joinedLines (withoutLineEnd text)), after)

/-- Reads a text after its three opening single quotes. -/
def longLiteralText (text : Bytes) : Option (Bytes × Bytes) := do
  let (text, after) ← cutLong 0x27 false [] text
  return (withoutLineEnd text, after)

/-- Reads a text from its opening quotes on. -/
def quotedText : Bytes → Option (Bytes × Bytes)
  | 0x22 :: 0x22 :: 0x22 :: rest => longBasicText rest
  | 0x27 :: 0x27 :: 0x27 :: rest => longLiteralText rest
  | 0x22 :: rest => basicText rest
  | 0x27 :: rest => cutLiteral rest
  | _ => none

/-! ### Keys -/

def isKeyByte (byte : UInt8) : Bool :=
  isSmall byte || isCapital byte || isDigit byte || byte == 0x5F || byte == 0x2D

/-- Reads one part of a key. -/
def keyPart : Bytes → Option (Bytes × Bytes)
  | 0x22 :: rest => basicText rest
  | 0x27 :: rest => cutLiteral rest
  | text =>
    let part := text.takeWhile isKeyByte
    if part.isEmpty then none else some (part, text.dropWhile isKeyByte)

/-- Reads a key of at most `fuel` parts, and the spaces after it. -/
def keyPath : (fuel : Nat) → Bytes → Option (List Bytes × Bytes)
  | 0, _ => none
  | fuel + 1, text => do
    let (part, rest) ← keyPart (skipSpaces text)
    match skipSpaces rest with
    | 0x2E :: rest =>
      let (path, rest) ← keyPath fuel rest
      some (part :: path, rest)
    | rest => some ([part], rest)

end LineScript.Toml
