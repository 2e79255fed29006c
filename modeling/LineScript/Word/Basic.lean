import LineScript.Text.Quoted

/-!
Words, the lexical units of a line. A word has a kind and a text. Four kinds occur only while a
line is cut into words: the end of the line, a character that starts no word, a tab, and a
parenthesised group that is still in one piece. The other kinds are those of a finished line.
-/

set_option autoImplicit false
set_option relaxedAutoImplicit false

namespace LineScript

open Bytes

/-- The kinds of words. -/
inductive Kind where
  /-- The end of a line or a comment. -/
  | empty
  /-- A character that starts no word. -/
  | invalid
  /-- A tab, which counts towards the scope of a line when it leads. -/
  | tab
  /-- What stands between two parentheses, not yet cut into words. -/
  | group
  | numeric
  | text
  /-- A variable, written with a dollar sign. -/
  | varname
  /-- A function, written with an at sign. -/
  | funcname
  | name
  | operator
  /-- An opening parenthesis. -/
  | opening
  /-- A closing parenthesis. -/
  | closing
  | comma
  /-- A dot before a member. -/
  | trail
  /-- A colon before a type. -/
  | cast
  /-- A code without a meaning. -/
  | reserved (code : UInt8)
  deriving DecidableEq, Repr

namespace Kind

/-- The kind of a code. -/
def ofCode (code : UInt8) : Kind :=
  match code with
  | 0 => .empty
  | 1 => .invalid
  | 2 => .tab
  | 3 => .group
  | 4 => .numeric
  | 5 => .text
  | 6 => .varname
  | 7 => .funcname
  | 8 => .name
  | 9 => .operator
  | 10 => .opening
  | 11 => .closing
  | 12 => .comma
  | 13 => .trail
  | 14 => .cast
  | other => .reserved other

/-- The name of a kind in reports. -/
def label : Kind → Bytes
  | .empty => utf8 "Empty"
  | .invalid => utf8 "Invalid"
  | .tab => utf8 "Tab"
  | .group => utf8 "Expression"
  | .numeric => utf8 "Numeric"
  | .text => utf8 "Text"
  | .varname => utf8 "Varname"
  | .funcname => utf8 "Funcname"
  | .name => utf8 "Name"
  | .operator => utf8 "Operator"
  | .opening => utf8 "ExpressionBegin"
  | .closing => utf8 "ExpressionEnd"
  | .comma => utf8 "Comma"
  | .trail => utf8 "Trail"
  | .cast => utf8 "Cast"
  | .reserved code => utf8 "Kind(" ++ decimal code.toNat ++ utf8 ")"

end Kind

/-- One lexical unit of a line. -/
structure Word where
  kind : Kind
  text : Bytes
  deriving DecidableEq, Repr

namespace Word

/-- The word that ends a line. -/
def empty : Word := ⟨.empty, []⟩

def tab : Word := ⟨.tab, [0x09]⟩

def opening : Word := ⟨.opening, [0x28]⟩

def closing : Word := ⟨.closing, [0x29]⟩

def comma : Word := ⟨.comma, [0x2C]⟩

def trail : Word := ⟨.trail, [0x2E]⟩

def cast : Word := ⟨.cast, [0x3A]⟩

/-- Whether a word carries content: it is neither the end of a line nor a character that starts
no word. -/
def isMeaningful (word : Word) : Bool :=
  word.kind != .empty && word.kind != .invalid

/-- A name with the given spelling. -/
def isNamed (word : Word) (spelling : Bytes) : Bool :=
  word.kind == .name && word.text == spelling

/-- An operator with the given spelling. -/
def isOperator (word : Word) (spelling : Bytes) : Bool :=
  word.kind == .operator && word.text == spelling

/-- A literal number or a variable. -/
def isAmount (word : Word) : Bool :=
  word.kind == .numeric || word.kind == .varname

/-- The name of a type of values. -/
def isValueType (word : Word) : Bool :=
  word.isNamed (utf8 "number") || word.isNamed (utf8 "text")

/-- A word as it stands in a source. -/
def render (word : Word) : Bytes :=
  match word.kind with
  | .text => Text.quote word.text
  | .varname => 0x24 :: word.text
  | .funcname => 0x40 :: word.text
  | .tab => utf8 "\\t"
  | _ => word.text

/-- Words as they stand in a source, one space apart. -/
def renderAll (words : List Word) : Bytes :=
  joined [0x20] (words.map render)

end Word

end LineScript
