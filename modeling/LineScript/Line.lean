import LineScript.Statement.Shape
import LineScript.Word.Tokenize

/-!
Lines of a source. The tabs before the first word give the scope of a line, later tabs only
separate words. The first word decides whether the line may stand at its scope; strict reading
also checks the shape of the whole statement.
-/

set_option autoImplicit false
set_option relaxedAutoImplicit false

namespace LineScript

open Bytes

/-- A line cut into words, with its depth of nesting and its number. -/
structure Line where
  scope : Nat
  /-- Counted from one; zero for a line outside a file. -/
  number : Int
  words : List Word
  deriving DecidableEq, Repr

/-- How sources are read. -/
structure ReadingRules where
  /-- The longest text in bytes; a limit below one allows every text. -/
  textLimit : Int := defaultTextLimit
  /-- Whether the shape of statements is checked. -/
  strict : Bool := false
  /-- The name of the source in reports. -/
  file : Bytes := []
  deriving DecidableEq, Repr

/-- Why a line is refused. -/
inductive LineError where
  | lexical (error : LexicalError)
  | firstWord (scope : Nat) (text : Bytes)
  | statement (violation : Statement.Violation)
  deriving DecidableEq, Repr

/-- The report of a refused line, without its position. -/
def LineError.diagnostic : LineError → Diagnostic
  | .lexical error => error.diagnostic
  | .firstWord scope text =>
    { category := .grammar
      message := utf8 "Invalid first word"
      subject := some text
      detail := if scope = 0 then utf8 "in the global scope" else utf8 "in a function scope" }
  | .statement violation => violation.diagnostic

/-- A line as far as it was read, and why it is refused if it is. -/
structure LineReading where
  line : Line
  error : Option LineError
  deriving DecidableEq, Repr

/-- A tab, which belongs to no statement. -/
def Word.isTab (word : Word) : Bool :=
  word.kind == .tab

/-- Makes the name of an included file a text: the two spellings name the same file. -/
def includedAsText : List Word → List Word
  | keyword :: file :: rest =>
    if keyword.isNamed Statement.Keyword.includeFile.spelling then
      keyword :: { file with kind := .text } :: rest
    else keyword :: file :: rest
  | words => words

/-- Reads one line. -/
def readLine (rules : ReadingRules) (number : Int) (text : Bytes) : LineReading :=
  let tokens := tokenize rules.textLimit text
  match tokens.error with
  | some error => ⟨⟨0, number, []⟩, some (.lexical error)⟩
  | none =>
    let scope := (tokens.words.takeWhile Word.isTab).length
    match tokens.words.filter (!·.isTab) with
    | [] => ⟨⟨scope, number, []⟩, none⟩
    | first :: rest =>
      let line : Line := ⟨scope, number, first :: rest⟩
      if !Statement.mayLead scope first then ⟨line, some (.firstWord scope first.text)⟩
      else if rules.strict then
        match Statement.violation? line.words with
        | some violation => ⟨line, some (.statement violation)⟩
        | none => ⟨{ line with words := includedAsText line.words }, none⟩
      else ⟨line, none⟩

/-- The report of a refused line at its position. -/
def LineReading.failure? (reading : LineReading) (file : Bytes) : Option Failure :=
  reading.error.map fun error ↦
    .single (error.diagnostic.atPosition reading.line.number file)

end LineScript
