import LineScript.Yaml.ScalarText

/-!
The tokens of a YAML document, one after the other. Indentation opens and closes collections in
block style, and something becomes a key when a colon follows it on its line, within 1024
characters. So tokens are kept back as long as one of them may turn out to start a key, and three
are always at hand. Nothing is read beyond that.
-/

set_option autoImplicit false
set_option relaxedAutoImplicit false

namespace LineScript.Yaml

open Bytes

/-- A place where a key may have started. -/
structure KeyStart where
  /-- Whether it still may. -/
  isPossible : Bool := false
  /-- Whether nothing else than a key may start there. -/
  isRequired : Bool := false
  /-- The number of the token that starts there. -/
  number : Nat := 0
  index : Nat := 0
  line : Nat := 0
  column : Nat := 0
  deriving DecidableEq, Repr

/-- The tokens at hand, and how to get more. -/
structure TokenStream where
  cursor : Cursor
  queue : List Token := []
  /-- How many tokens have been taken. -/
  taken : Nat := 0
  hasStarted : Bool := false
  /-- The column of the innermost collection in block style, or -1. -/
  indent : Int := -1
  /-- The columns of the collections around it. -/
  indents : List Int := []
  /-- The last start of a key in each collection in flow style, the innermost first, and around
  them. -/
  keys : List KeyStart := [{}]
  /-- For tokens that may start a key, how many collections in flow style are around them. -/
  keyLevels : List (Nat × Nat) := []
  /-- Whether a key may start here. -/
  allowsKey : Bool := true
  deriving DecidableEq, Repr

namespace TokenStream

/-- How many collections in flow style are open. -/
def flowLevel (stream : TokenStream) : Nat :=
  stream.keys.length - 1

def inFlow (stream : TokenStream) : Bool :=
  !stream.keys.tail.isEmpty

/-- The number of the next token. -/
def nextNumber (stream : TokenStream) : Nat :=
  stream.taken + stream.queue.length

/-- The stream with one more token. -/
def push (stream : TokenStream) (token : Token) : TokenStream :=
  { stream with queue := stream.queue ++ [token] }

/-- The stream with a token before the one with a number. -/
def insert (stream : TokenStream) (number : Nat) (token : Token) : TokenStream :=
  if number < stream.taken then stream.push token
  else
    let place := number - stream.taken
    { stream with queue := stream.queue.take place ++ token :: stream.queue.drop place }

/-- Skips characters of an indicator, and adds its token. -/
def pushSkipping (stream : TokenStream) (count : Nat) (token : Token) : TokenStream :=
  { stream with cursor := stream.cursor.skip count }.push token

/-! ### Indentation -/

/-- How many collections start right of a column, and the columns that remain. -/
def closedBy (column : Int) : (indent : Int) → (indents : List Int) → Nat × Int × List Int
  | indent, [] => (0, indent, [])
  | indent, outer :: indents =>
    if column < indent then
      let (count, indent, indents) := closedBy column outer indents
      (count + 1, indent, indents)
    else (0, indent, outer :: indents)

/-- Closes the collections in block style that start right of a column. -/
def unroll (stream : TokenStream) (column : Int) : TokenStream :=
  if stream.inFlow then stream
  else
    let (count, indent, indents) := closedBy column stream.indent stream.indents
    { stream with indent, indents, queue := stream.queue ++ List.replicate count .blockEnd }

/-- How deep collections of one style may be nested. -/
def depthLimit : Nat := 10000

/-- Opens a collection in block style at a column, if it is right of the innermost one, with its
token before the one with a number. -/
def roll (stream : TokenStream) (column number : Nat) (token : Token) : Option TokenStream :=
  if !stream.inFlow ∧ stream.indent < column then
    if stream.indents.length < depthLimit then
      let indents := stream.indent :: stream.indents
      some ({ stream with indent := column, indents }.insert number token)
    else none
  else some stream

/-! ### Starts of keys -/

/-- Forgets the token that may start a key. -/
def forgetNumber (stream : TokenStream) (number : Nat) : TokenStream :=
  { stream with keyLevels := stream.keyLevels.filter (·.1 != number) }

/-- Gives up the innermost start of a key. -/
def removeKey (stream : TokenStream) : Option TokenStream :=
  match stream.keys with
  | [] => none
  | key :: outer =>
    if !key.isPossible then some stream
    else if key.isRequired then none
    else
      let keys := { key with isPossible := false } :: outer
      some ({ stream with keys }.forgetNumber key.number)

/-- Notes that a key may start here, if it may. -/
def saveKey (stream : TokenStream) : Option TokenStream :=
  if stream.allowsKey then do
    let cursor := stream.cursor
    let number := stream.nextNumber
    let isRequired := !stream.inFlow && stream.indent == cursor.column
    let key : KeyStart :=
      { isPossible := true, isRequired, number
        index := cursor.index, line := cursor.line, column := cursor.column }
    let stream := (← stream.removeKey).forgetNumber number
    return { stream with
      keys := key :: stream.keys.tail
      keyLevels := (number, stream.flowLevel) :: stream.keyLevels }
  else some stream

/-- The start of a key in view of the place reached: it is possible on its line only, and within
1024 characters. -/
def currentKey (stream : TokenStream) (key : KeyStart) : Option KeyStart :=
  if key.isPossible ∧ (key.line < stream.cursor.line ∨ key.index + 1024 < stream.cursor.index) then
    if key.isRequired then none else some { key with isPossible := false }
  else some key

/-- Opens a collection in flow style. -/
def openFlow (stream : TokenStream) (token : Token) : Option TokenStream := do
  let stream ← stream.saveKey
  guard (stream.flowLevel < depthLimit)
  let key : KeyStart := { number := stream.nextNumber }
  return { stream with keys := key :: stream.keys, allowsKey := true }.pushSkipping 1 token

/-- Closes a collection in flow style. -/
def closeFlow (stream : TokenStream) (token : Token) : Option TokenStream := do
  let stream ← stream.removeKey
  let stream := match stream.keys with
    | key :: next :: outer => { stream with keys := next :: outer }.forgetNumber key.number
    | _ => stream
  return { stream with allowsKey := false }.pushSkipping 1 token

/-! ### Indicators -/

/-- Ends the stream. -/
def endStream (stream : TokenStream) : Option TokenStream := do
  let cursor := stream.cursor
  let cursor := if cursor.column = 0 then cursor
    else { cursor with column := 0, line := cursor.line + 1 }
  let stream ← ({ stream with cursor }.unroll (-1)).removeKey
  return { stream with allowsKey := false }.push .streamEnd

/-- Reads a directive. -/
def directive (stream : TokenStream) : Option TokenStream := do
  let stream ← (stream.unroll (-1)).removeKey
  let (token, cursor) ← directiveToken stream.cursor
  return { stream with cursor, allowsKey := false }.push token

/-- Reads a mark between documents. -/
def boundary (stream : TokenStream) (token : Token) : Option TokenStream := do
  let stream ← (stream.unroll (-1)).removeKey
  return { stream with allowsKey := false }.pushSkipping 3 token

/-- Reads a comma. -/
def flowEntry (stream : TokenStream) : Option TokenStream := do
  return { ← stream.removeKey with allowsKey := true }.pushSkipping 1 .flowEntry

/-- Reads the hyphen of an item. -/
def blockEntry (stream : TokenStream) : Option TokenStream := do
  guard (stream.inFlow || stream.allowsKey)
  let stream ← stream.roll stream.cursor.column stream.nextNumber .blockSequenceStart
  return { ← stream.removeKey with allowsKey := true }.pushSkipping 1 .blockEntry

/-- Reads the question mark of a key. -/
def explicitKey (stream : TokenStream) : Option TokenStream := do
  guard (stream.inFlow || stream.allowsKey)
  let stream ← stream.roll stream.cursor.column stream.nextNumber .blockMappingStart
  return { ← stream.removeKey with allowsKey := !stream.inFlow }.pushSkipping 1 .key

/-- Reads the colon of a value. What may have started a key did. -/
def value (stream : TokenStream) : Option TokenStream := do
  match stream.keys with
  | [] => none
  | key :: outer =>
    let key ← stream.currentKey key
    if key.isPossible then
      let stream ← (stream.insert key.number .key).roll key.column key.number .blockMappingStart
      let keys := { key with isPossible := false } :: outer
      let stream := { stream with keys, allowsKey := false }.forgetNumber key.number
      return stream.pushSkipping 1 .value
    else
      guard (stream.inFlow || stream.allowsKey)
      let stream := { stream with keys := key :: outer }
      let stream ← stream.roll stream.cursor.column stream.nextNumber .blockMappingStart
      return { stream with allowsKey := !stream.inFlow }.pushSkipping 1 .value

/-! ### Tokens with a text -/

/-- Adds a token that may start a key, and that another may not follow as one. -/
def pushContent (stream : TokenStream) (read : Cursor → Option (Token × Cursor)) :
    Option TokenStream := do
  let stream ← stream.saveKey
  let (token, cursor) ← read stream.cursor
  return { stream with cursor, allowsKey := false }.push token

/-- Reads a scalar without quotes. After a break, a key may start. -/
def plain (stream : TokenStream) : Option TokenStream := do
  let stream ← stream.saveKey
  let (text, hasBreak, cursor) ←
    plainScalar stream.inFlow (stream.indent + 1).toNat stream.cursor
  return { stream with cursor, allowsKey := hasBreak }.push (.scalar true text)

/-- Reads a block scalar. -/
def block (stream : TokenStream) (isFolded : Bool) : Option TokenStream := do
  let stream ← stream.removeKey
  let (text, cursor) ← blockScalar isFolded stream.indent stream.cursor
  return { stream with cursor, allowsKey := true }.push (.scalar false text)

/-- Reads a scalar in quotes. -/
def quoted (stream : TokenStream) (quote : Char) : Option TokenStream :=
  stream.pushContent fun cursor ↦ do
    let (text, cursor) ← quotedScalar quote cursor
    return (.scalar false text, cursor)

/-! ### The next token -/

/-- Skips blanks, comments and at most `fuel` breaks. A tab counts as a blank where no key may
start, and in block style a key may start after a break. -/
def skipToToken : (fuel : Nat) → TokenStream → Option TokenStream
  | 0, stream => some stream
  | fuel + 1, stream => do
    let cursor := stream.cursor
    cursor.need 1
    let atMark := cursor.column == 0 && cursor.head?.any (·.toNat == 0xFEFF)
    let cursor := if atMark then cursor.skip 1 else cursor
    let takesTabs := stream.inFlow || !stream.allowsKey
    let cursor ← cursor.skipWhile fun char ↦ char == ' ' || (takesTabs && char == '\t')
    let cursor ← if cursor.isAt '#' then cursor.skipComments (fuel + 1) else some cursor
    if cursor.head?.any isBreak then
      cursor.need 2
      let allowsKey := stream.allowsKey || !stream.inFlow
      skipToToken fuel { stream with cursor := cursor.takeBreak.2, allowsKey }
    else return { stream with cursor }

/-- A character that starts no scalar without quotes. -/
def isIndicator (char : Char) : Bool :=
  "-?:,[]\x7b\x7d#&*!|>'\"%@`".toList.contains char

/-- Reads a token that is not the end, a directive or a mark between documents. -/
def content (stream : TokenStream) : Option TokenStream := do
  let cursor := stream.cursor
  let next := cursor.ahead? 1
  match cursor.head? with
  | none => none
  | some char =>
    if char = '[' then stream.openFlow .flowSequenceStart
    else if char = '\x7b' then stream.openFlow .flowMappingStart
    else if char = ']' then stream.closeFlow .flowSequenceEnd
    else if char = '\x7d' then stream.closeFlow .flowMappingEnd
    else if char = ',' then stream.flowEntry
    else if char = '-' ∧ endsWord next then stream.blockEntry
    else if char = '?' ∧ (stream.inFlow ∨ endsWord next) then stream.explicitKey
    else if char = ':' ∧ (stream.inFlow ∨ endsWord next) then stream.value
    else if char = '*' then
      stream.pushContent fun cursor ↦
        (anchorName cursor).map fun (name, after) ↦ (.alias name, after)
    else if char = '&' then
      stream.pushContent fun cursor ↦
        (anchorName cursor).map fun (name, after) ↦ (.anchor name, after)
    else if char = '!' then stream.pushContent tagToken
    else if char = '|' ∧ !stream.inFlow then stream.block false
    else if char = '>' ∧ !stream.inFlow then stream.block true
    else if char = '\x27' ∨ char = '\x22' then stream.quoted char
    else if !isIndicator char ∨ char = '-' ∨ (!stream.inFlow ∧ (char = '?' ∨ char = ':')) then
      if isBlank char then none else stream.plain
    else none

/-- Reads the next token, and the comment after it on its line, except after a hyphen. -/
def next (length : Nat) (stream : TokenStream) : Option TokenStream := do
  stream.cursor.need 1
  if !stream.hasStarted then return { stream with hasStarted := true }.push .streamStart
  else
    let stream ← stream.skipToToken length
    let stream := stream.unroll stream.cursor.column
    let cursor := stream.cursor
    cursor.need 4
    if cursor.head?.isNone then stream.endStream
    else if cursor.column = 0 ∧ cursor.isAt '%' then stream.directive
    else if cursor.isAtMark '-' then stream.boundary .documentStart
    else if cursor.isAtMark '.' then stream.boundary .documentEnd
    else
      let stream ← stream.content
      if stream.queue.getLast? = some .blockEntry then return stream
      else return { stream with cursor := ← stream.cursor.skipLineComment }

/-- Reads tokens, at most `fuel`, until three are at hand and the first can no longer turn out to
start a key. -/
def filled (length : Nat) : (fuel : Nat) → TokenStream → Option TokenStream
  | 0, _ => none
  | fuel + 1, stream => do
    if stream.queue.length ≤ 2 then filled length fuel (← stream.next length)
    else
      match stream.keyLevels.lookup stream.taken with
      | none => return stream
      | some level =>
        let place := stream.flowLevel - level
        match stream.keys[place]? with
        | none => return stream
        | some key =>
          let key ← stream.currentKey key
          if key.isPossible then filled length fuel (← stream.next length)
          else return { stream with keys := stream.keys.set place key }

/-- The stream without its first token, which can no longer start a key. -/
def drop (stream : TokenStream) : TokenStream :=
  { stream with
    queue := stream.queue.tail
    taken := stream.taken + 1
    keyLevels := stream.keyLevels.filter (stream.taken < ·.1) }

end TokenStream

end LineScript.Yaml
