import LineScript.Casebook.Block
import LineScript.Diagnostic

/-!
Test cases in a document. A case starts at a heading `Test: ` with its name. It holds one fence
of input, a whole source or a single line, and one or more fences of what is expected. Fences
without a language and other headings do not count. The first thing that is wrong counts; that a
case lacks something shows where the next case starts or the document ends.
-/

set_option autoImplicit false
set_option relaxedAutoImplicit false

namespace LineScript.Casebook

open Bytes

/-- What the input of a case is. -/
inductive InputKind where
  | source
  | line
  deriving DecidableEq, Repr

/-- What an expectation is about. -/
inductive AssertionKind where
  /-- The words of a line, each with its kind. -/
  | words
  /-- The listing of a source. -/
  | dump
  /-- A part of a failure's report. -/
  | error
  /-- The scope of a line. -/
  | scope
  deriving DecidableEq, Repr

/-- The language of an input fence. -/
def InputKind.language : InputKind → Bytes
  | .source => utf8 "xenon"
  | .line => utf8 "xenon-line"

/-- The language of an expectation. -/
def AssertionKind.language : AssertionKind → Bytes
  | .words => utf8 "words"
  | .dump => utf8 "dump"
  | .error => utf8 "error"
  | .scope => utf8 "scope"

def InputKind.ofLanguage? (language : Bytes) : Option InputKind :=
  [.source, .line].find? (·.language == language)

def AssertionKind.ofLanguage? (language : Bytes) : Option AssertionKind :=
  [.words, .dump, .error, .scope].find? (·.language == language)

/-- A test case. -/
structure Case where
  name : Bytes
  /-- The line of its heading. -/
  line : Nat
  inputKind : InputKind
  input : Bytes
  assertions : List (AssertionKind × Bytes)
  deriving DecidableEq, Repr

/-- The first expectation of a kind. -/
def Case.assertion? (testCase : Case) (kind : AssertionKind) : Option Bytes :=
  testCase.assertions.lookup kind

/-- What is wrong with a document. -/
inductive CaseError where
  | outside (line : Nat) (language : Bytes)
  | secondInput (line : Nat) (name : Bytes)
  | unknownLanguage (line : Nat) (language name : Bytes)
  | noInput (name : Bytes)
  | noAssertions (name : Bytes)
  deriving DecidableEq, Repr

/-- The wording of what is wrong. -/
def CaseError.message : CaseError → Bytes
  | .outside line language =>
    utf8 "line " ++ decimal line ++ utf8 ": " ++ language ++
      utf8 " fence found outside of a test case"
  | .secondInput line name =>
    utf8 "line " ++ decimal line ++ utf8 ": multiple input fences in test '" ++ name ++ utf8 "'"
  | .unknownLanguage line language name =>
    utf8 "line " ++ decimal line ++ utf8 ": unknown fence language '" ++ language ++
      utf8 "' in test '" ++ name ++ utf8 "'"
  | .noInput name => utf8 "test '" ++ name ++ utf8 "' has no input fence"
  | .noAssertions name => utf8 "test '" ++ name ++ utf8 "' has no assertion fences"

/-- The report of what is wrong. -/
def CaseError.failure (error : CaseError) : Failure :=
  .plain error.message

/-! ### Extraction -/

/-- A case being read. -/
structure Draft where
  name : Bytes
  line : Nat
  input : Option (InputKind × Bytes) := none
  assertions : List (AssertionKind × Bytes) := []
  deriving DecidableEq, Repr

/-- The case of a draft that is complete. -/
def Draft.finish (draft : Draft) : Except CaseError Case :=
  match draft.input with
  | none => .error (.noInput draft.name)
  | some (inputKind, input) =>
    if draft.assertions.isEmpty then .error (.noAssertions draft.name)
    else .ok ⟨draft.name, draft.line, inputKind, input, draft.assertions⟩

/-- The content without one newline at its end. -/
def withoutNewline (content : Bytes) : Bytes :=
  if content.getLast? = some 0x0A then content.dropLast else content

/-- The content without all newlines at its end. -/
def withoutNewlines (content : Bytes) : Bytes :=
  (content.reverse.dropWhile (· == 0x0A)).reverse

/-- The name of the case that a heading starts. -/
def testName? (heading : Bytes) : Option Bytes :=
  (utf8 "Test: ").isPrefixOf? heading

/-- The draft after a fence with a language. -/
def Draft.addFence (draft : Draft) (line : Nat) (language content : Bytes) :
    Except CaseError Draft :=
  match InputKind.ofLanguage? language, AssertionKind.ofLanguage? language with
  | some kind, _ =>
    if draft.input.isSome then .error (.secondInput line draft.name)
    else .ok { draft with input := some (kind, withoutNewline content) }
  | none, some kind =>
    .ok { draft with assertions := draft.assertions ++ [(kind, withoutNewlines content)] }
  | none, none => .error (.unknownLanguage line language draft.name)

/-- The cases of blocks that follow an unfinished case, if there is one. -/
def casesFrom : Option Draft → List Block → Except CaseError (List Case)
  | none, [] => .ok []
  | some draft, [] => do return [← draft.finish]
  | draft, .heading line text :: rest =>
    match testName? text with
    | none => casesFrom draft rest
    | some name =>
      match draft with
      | none => casesFrom (some { name, line }) rest
      | some draft => do
        let first ← draft.finish
        let more ← casesFrom (some { name, line }) rest
        return first :: more
  | draft, .fence line language content :: rest =>
    if language.isEmpty then casesFrom draft rest
    else
      match draft with
      | none => .error (.outside line language)
      | some draft => do
        let draft ← draft.addFence line language content
        casesFrom (some draft) rest

/-- The test cases of a document. -/
def cases (document : Bytes) : Except CaseError (List Case) :=
  casesFrom none (blocks document)

end LineScript.Casebook
