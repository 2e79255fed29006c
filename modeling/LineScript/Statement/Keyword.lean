import LineScript.Word.Basic

/-!
Keywords, the names that start a statement. Declarations and event handlers stand in the global
scope, control flow stands inside a block, and variables and arrays may be declared in both.
-/

set_option autoImplicit false
set_option relaxedAutoImplicit false

namespace LineScript.Statement

/-- The names that start a statement. -/
inductive Keyword where
  | includeFile
  | constant
  | variable
  | array
  | storage
  | initBlock
  | tickBlock
  | function
  | timer
  | input
  | output
  | forEach
  | repeatLoop
  | whileLoop
  | breakLoop
  | nextTurn
  | ifBranch
  | elseIfBranch
  | elseBranch
  | returnValue
  deriving DecidableEq, Repr

namespace Keyword

/-- Every keyword. -/
def all : List Keyword :=
  [.includeFile, .constant, .variable, .array, .storage, .initBlock, .tickBlock, .function,
   .timer, .input, .output, .forEach, .repeatLoop, .whileLoop, .breakLoop, .nextTurn, .ifBranch,
   .elseIfBranch, .elseBranch, .returnValue]

/-- A keyword as it stands in a source. -/
def spelling : Keyword → Bytes
  | .includeFile => utf8 "include"
  | .constant => utf8 "const"
  | .variable => utf8 "var"
  | .array => utf8 "array"
  | .storage => utf8 "storage"
  | .initBlock => utf8 "init"
  | .tickBlock => utf8 "tick"
  | .function => utf8 "function"
  | .timer => utf8 "timer"
  | .input => utf8 "input"
  | .output => utf8 "output"
  | .forEach => utf8 "foreach"
  | .repeatLoop => utf8 "repeat"
  | .whileLoop => utf8 "while"
  | .breakLoop => utf8 "break"
  | .nextTurn => utf8 "next"
  | .ifBranch => utf8 "if"
  | .elseIfBranch => utf8 "elseif"
  | .elseBranch => utf8 "else"
  | .returnValue => utf8 "return"

/-- The keyword with a spelling. -/
def ofText? (text : Bytes) : Option Keyword :=
  all.find? (·.spelling == text)

/-- Whether the statement may stand in the global scope. -/
def isGlobal : Keyword → Bool
  | .includeFile | .constant | .variable | .array | .storage | .initBlock | .tickBlock
  | .function | .timer | .input => true
  | _ => false

/-- Whether the statement may stand inside a block. -/
def isLocal : Keyword → Bool
  | .variable | .array | .output | .forEach | .repeatLoop | .whileLoop | .breakLoop | .nextTurn
  | .ifBranch | .elseIfBranch | .elseBranch | .returnValue => true
  | _ => false

end Keyword

/-- Whether a word may start a line of the given scope. Inside a block a line may also start with
a variable or a call. -/
def mayLead (scope : Nat) (word : Word) : Bool :=
  match word.kind with
  | .name =>
    (Keyword.ofText? word.text).any fun keyword ↦
      if scope = 0 then keyword.isGlobal else keyword.isLocal
  | .varname | .funcname => scope != 0
  | _ => false

end LineScript.Statement
