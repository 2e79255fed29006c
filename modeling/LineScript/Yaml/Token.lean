import LineScript.Yaml.Cursor

/-!
The tokens of a YAML document, and how those with a text are read: names of anchors, tags and
directives. Scalars have a module of their own.
-/

set_option autoImplicit false
set_option relaxedAutoImplicit false

namespace LineScript.Yaml

open Bytes

/-- A token of a document. -/
inductive Token where
  | streamStart
  | streamEnd
  /-- A directive that names the version of the language. -/
  | version (major minor : Nat)
  /-- A directive that says what the handle of a tag stands for. -/
  | shorthand (handle meaning : Bytes)
  | documentStart
  | documentEnd
  | blockSequenceStart
  | blockMappingStart
  | blockEnd
  | flowSequenceStart
  | flowSequenceEnd
  | flowMappingStart
  | flowMappingEnd
  | blockEntry
  | flowEntry
  | key
  | value
  | alias (name : Bytes)
  | anchor (name : Bytes)
  | tag (handle suffix : Bytes)
  /-- A scalar, which is plain when it stands on a line or several without quotes. -/
  | scalar (isPlain : Bool) (text : Bytes)
  deriving DecidableEq, Repr

/-- The UTF-8 encoding of characters. -/
def encoded (chars : List Char) : Bytes :=
  chars.flatMap String.utf8EncodeChar

/-- Reads the name of an anchor or an alias after the character that announces it. -/
def anchorName (cursor : Cursor) : Option (Bytes × Cursor) := do
  let (name, cursor) ← (cursor.skip 1).takeWhile isNameChar
  guard !name.isEmpty
  guard (endsWord cursor.head? || cursor.head?.any ("?:,]\x7d%@`".toList.contains ·))
  return (encoded name, cursor)

/-! ### Tags -/

/-- The value of a character that is a hexadecimal digit. -/
def hexDigit? (char : Char) : Option Nat :=
  if char.toNat < 0x80 then hexValue? (UInt8.ofNat char.toNat) else none

/-- Reads one byte that is written as a percent sign and two digits. -/
def escapedByte (cursor : Cursor) : Option (UInt8 × Cursor) := do
  cursor.need 3
  match cursor.rest with
  | '%' :: high :: low :: _ =>
    return (UInt8.ofNat ((← hexDigit? high) * 16 + (← hexDigit? low)), cursor.skip 3)
  | _ => none

/-- Reads the further bytes of an escaped character. -/
def escapedBytes : (count : Nat) → Cursor → Option (Bytes × Cursor)
  | 0, cursor => some ([], cursor)
  | count + 1, cursor => do
    let (byte, cursor) ← escapedByte cursor
    guard (Text.isContinuation byte)
    let (bytes, cursor) ← escapedBytes count cursor
    return (byte :: bytes, cursor)

/-- A character that a tag may hold, other than a percent sign. -/
def isTagChar (char : Char) : Bool :=
  isNameChar char || ";/?:@&=+$,.!~*'()[]".toList.contains char

/-- Reads the characters of a tag, at most `fuel`. -/
def tagText : (fuel : Nat) → Cursor → Option (Bytes × Cursor)
  | 0, cursor => some ([], cursor)
  | fuel + 1, cursor => do
    cursor.need 1
    match cursor.head? with
    | none => return ([], cursor)
    | some char =>
      if char = '%' then
        let (lead, cursor) ← escapedByte cursor
        let (more, cursor) ← escapedBytes ((← announcedLength? lead) - 1) cursor
        let (text, cursor) ← tagText fuel cursor
        return (lead :: more ++ text, cursor)
      else if isTagChar char then
        let (text, cursor) ← tagText fuel (cursor.skip 1)
        return (String.utf8EncodeChar char ++ text, cursor)
      else return ([], cursor)

/-- Reads the characters of a tag to their end. -/
def wholeTagText (cursor : Cursor) : Option (Bytes × Cursor) :=
  tagText (cursor.rest.length + 1) cursor

/-- Reads characters of a tag, of which there must be one. -/
def someTagText (cursor : Cursor) : Option (Bytes × Cursor) := do
  let (text, after) ← wholeTagText cursor
  if after.index = cursor.index then none else some (text, after)

/-- Reads an exclamation mark, a name, and a second exclamation mark if there is one. -/
def tagHandle (cursor : Cursor) : Option (List Char × Bool × Cursor) := do
  guard (cursor.isAt '!')
  let (name, cursor) ← (cursor.skip 1).takeWhile isNameChar
  return (name, cursor.isAt '!', if cursor.isAt '!' then cursor.skip 1 else cursor)

/-- Reads a tag: between angle brackets, with a handle, or with an exclamation mark alone. -/
def tagToken (cursor : Cursor) : Option (Token × Cursor) := do
  cursor.need 2
  let (tag, cursor) ←
    if cursor.ahead? 1 = some '<' then do
      let (text, cursor) ← someTagText (cursor.skip 2)
      guard (cursor.isAt '>')
      some (Token.tag [] text, cursor.skip 1)
    else do
      let (name, isClosed, cursor) ← tagHandle cursor
      if isClosed then
        let (text, cursor) ← someTagText cursor
        some (Token.tag (utf8 "!" ++ encoded name ++ utf8 "!") text, cursor)
      else
        let (text, cursor) ← wholeTagText cursor
        let suffix := encoded name ++ text
        some (if suffix.isEmpty then .tag [] (utf8 "!") else .tag (utf8 "!") suffix, cursor)
  cursor.need 1
  guard (endsWord cursor.head?)
  return (tag, cursor)

/-! ### Directives -/

/-- Reads a number of one or two digits. -/
def versionPart (cursor : Cursor) : Option (Nat × Cursor) := do
  let (digits, cursor) ← cursor.takeWhile Char.isDigit
  guard (!digits.isEmpty && digits.length ≤ 2)
  return (Bytes.value (encoded digits), cursor)

/-- Reads the version in a directive. -/
def versionDirective (cursor : Cursor) : Option (Token × Cursor) := do
  let (major, cursor) ← versionPart cursor
  guard (cursor.isAt '.')
  let (minor, cursor) ← versionPart (cursor.skip 1)
  return (.version major minor, cursor)

/-- Reads the handle in a directive and what it stands for. -/
def shorthandDirective (cursor : Cursor) : Option (Token × Cursor) := do
  let (name, isClosed, cursor) ← tagHandle cursor
  guard (isClosed || name.isEmpty)
  guard (cursor.head?.any isBlank)
  let (meaning, cursor) ← someTagText (← cursor.skipWhile isBlank)
  guard (endsWord cursor.head?)
  let closing := if isClosed then utf8 "!" else []
  return (.shorthand (utf8 "!" ++ encoded name ++ closing) meaning, cursor)

/-- Reads a directive to the end of its line. -/
def directiveToken (cursor : Cursor) : Option (Token × Cursor) := do
  let (name, cursor) ← (cursor.skip 1).takeWhile isNameChar
  guard (endsWord cursor.head?)
  let cursor ← cursor.skipWhile isBlank
  let (token, cursor) ←
    if encoded name = utf8 "YAML" then versionDirective cursor
    else if encoded name = utf8 "TAG" then shorthandDirective cursor
    else none
  let cursor ← cursor.skipWhile isBlank
  let cursor ← if cursor.isAt '#' then cursor.toLineEnd else some cursor
  guard (endsLine cursor.head?)
  return (token, ← cursor.skipBreak)

end LineScript.Yaml
