import LineScript.Toml.Numeral
import LineScript.Toml.Quoted

/-!
The statements of a TOML document: table headers, and keys with texts, numbers, booleans, dates,
arrays and tables on one line, with comments between them. What the statements define together is
a matter of the table module.
-/

set_option autoImplicit false
set_option relaxedAutoImplicit false

namespace LineScript.Toml

open Bytes

/-- A value as it is written. -/
inductive Literal where
  | text (bytes : Bytes)
  | integer (value : Int)
  | real
  | boolean (value : Bool)
  | moment
  | array (items : List Literal)
  | table (entries : List (List Bytes × Literal))

/-- A statement of a document. -/
inductive Statement where
  /-- A header, which opens a table. -/
  | header (path : List Bytes)
  /-- A header in two brackets, which opens the next table of a list. -/
  | listHeader (path : List Bytes)
  /-- A key, whose parts are written with dots between them, and its value. -/
  | assignment (path : List Bytes) (value : Literal)

/-! ### Characters -/

/-- Whether no character occurs that may not: control characters, and a carriage return that ends
no line. -/
def isClean : Bytes → Bool
  | [] => true
  | byte :: rest =>
    if byte = 0x0D then rest.head? == some 0x0A && isClean rest
    else (0x20 ≤ byte || byte == 0x09 || byte == 0x0A) && byte != 0x7F && isClean rest

/-- The document without the mark of its encoding. -/
def withoutMark : Bytes → Bytes
  | 0xEF :: 0xBB :: 0xBF :: rest => rest
  | 0xFF :: 0xFE :: rest => rest
  | 0xFE :: 0xFF :: rest => rest
  | document => document

/-- Skips white space and comments. -/
def skipFiller (inComment : Bool) : Bytes → Bytes
  | [] => []
  | byte :: rest =>
    if inComment then skipFiller (byte != 0x0A) rest
    else if isWhite byte then skipFiller false rest
    else if byte = 0x23 then skipFiller true rest
    else byte :: rest

/-- Skips the end of a line, with a comment before it if there is one. -/
def skipLineEnd (text : Bytes) : Option Bytes :=
  match skipSpaces text with
  | [] => some []
  | byte :: rest =>
    if isLineEnd byte then some rest
    else if byte = 0x23 then some (rest.dropWhile (· != 0x0A))
    else none

/-! ### Values -/

/-- A byte that ends a word. -/
def endsWord (byte : UInt8) : Bool :=
  isWhite byte || byte == 0x23 || byte == 0x2C || byte == 0x5D || byte == 0x7D

/-- A boolean or a number. -/
def wordLiteral? (word : Bytes) : Option Literal :=
  if word = utf8 "true" then some (.boolean true)
  else if word = utf8 "false" then some (.boolean false)
  else
    match integer? word with
    | some integer => some (.integer integer)
    | none => if isReal word then some .real else none

/-- Reads a date or a time. Spaces after it do not count. -/
def momentLiteral? (text : Bytes) : Option (Literal × Bytes) :=
  let moment := ((text.takeWhile isMomentByte).reverse.dropWhile isSpace).reverse
  if isMoment moment then some (.moment, text.dropWhile isMomentByte) else none

mutual

/-- Reads a value. -/
def literal : (fuel : Nat) → Bytes → Option (Literal × Bytes)
  | 0, _ => none
  | fuel + 1, text =>
    match text with
    | 0x22 :: _ | 0x27 :: _ => (quotedText text).map fun (text, after) ↦ (.text text, after)
    | 0x5B :: rest => (arrayItems fuel rest).map fun (items, after) ↦ (.array items, after)
    | 0x7B :: rest =>
      match skipSpaces rest with
      | 0x7D :: rest => some (.table [], rest)
      | rest => (tableEntries fuel rest).map fun (entries, after) ↦ (.table entries, after)
    | text =>
      if startsMoment text then momentLiteral? text
      else (wordLiteral? (text.takeWhile (!endsWord ·))).map (·, text.dropWhile (!endsWord ·))

/-- Reads the values of an array and its closing bracket. A comma may stand after the last. -/
def arrayItems : (fuel : Nat) → Bytes → Option (List Literal × Bytes)
  | 0, _ => none
  | fuel + 1, text =>
    match skipFiller false text with
    | 0x5D :: rest => some ([], rest)
    | text => do
      let (item, rest) ← literal fuel text
      match skipFiller false rest with
      | 0x2C :: rest =>
        let (items, rest) ← arrayItems fuel rest
        some (item :: items, rest)
      | 0x5D :: rest => some ([item], rest)
      | _ => none

/-- Reads the keys and values of a table on one line and its closing brace. -/
def tableEntries : (fuel : Nat) → Bytes → Option (List (List Bytes × Literal) × Bytes)
  | 0, _ => none
  | fuel + 1, text => do
    let (path, rest) ← keyPath fuel text
    match rest with
    | 0x3D :: rest =>
      let (value, rest) ← literal fuel (skipSpaces rest)
      match skipSpaces rest with
      | 0x2C :: rest =>
        let (entries, rest) ← tableEntries fuel rest
        some ((path, value) :: entries, rest)
      | 0x7D :: rest => some ([(path, value)], rest)
      | _ => none
    | _ => none

end

/-! ### Documents -/

/-- Reads one statement up to the end of its line. -/
def statement (fuel : Nat) : Bytes → Option (Statement × Bytes)
  | 0x5B :: 0x5B :: rest => do
    let (path, rest) ← keyPath fuel rest
    match rest with
    | 0x5D :: 0x5D :: rest => some (.listHeader path, ← skipLineEnd rest)
    | _ => none
  | 0x5B :: rest => do
    let (path, rest) ← keyPath fuel rest
    match rest with
    | 0x5D :: rest => some (.header path, ← skipLineEnd rest)
    | _ => none
  | text => do
    let (path, rest) ← keyPath fuel text
    match rest with
    | 0x3D :: rest =>
      let (value, rest) ← literal fuel (skipSpaces rest)
      some (.assignment path value, ← skipLineEnd rest)
    | _ => none

/-- Reads statements to the end. -/
def statements : (fuel : Nat) → Bytes → Option (List Statement)
  | 0, _ => none
  | fuel + 1, text =>
    match skipFiller false text with
    | [] => some []
    | text => do
      let (first, rest) ← statement fuel text
      let more ← statements fuel rest
      some (first :: more)

/-- The statements of a document. Every statement takes a byte or more, so its length bounds
their number and the depth of their values. -/
def document? (bytes : Bytes) : Option (List Statement) :=
  let text := withoutMark bytes
  if isClean text && Text.isUtf8 text then statements (text.length + 2) text else none

end LineScript.Toml
