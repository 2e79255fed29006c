import LineScript.Bytes

/-!
Failures and how they are reported. A diagnostic has a category, by which callers tell a bad
source line from a bad image without looking at the wording, a message, and the context known
where it arose: the offending text, a qualifier, a line and a file. A failure is a diagnostic,
possibly with a cause below it, or a text without a category.
-/

set_option autoImplicit false
set_option relaxedAutoImplicit false

namespace LineScript

open Bytes

/-- What kind of thing went wrong. -/
inductive Category where
  /-- A line holds something that is no word. -/
  | lexical
  /-- The words of a line are not allowed where they stand. -/
  | grammar
  /-- A line is nested more than one level deeper than the line before it. -/
  | indentation
  /-- An image has a bad mark, a newer version or malformed fields. -/
  | format
  /-- An image is cut short or contradicts its own header. -/
  | structural
  /-- A code without a meaning. -/
  | reserved (code : UInt8)
  deriving DecidableEq, Repr

namespace Category

/-- The category of a code. -/
def ofCode (code : UInt8) : Category :=
  match code with
  | 1 => .lexical
  | 2 => .grammar
  | 3 => .indentation
  | 4 => .format
  | 5 => .structural
  | other => .reserved other

/-- The name of a category. -/
def name : Category → Bytes
  | .lexical => utf8 "lexical"
  | .grammar => utf8 "grammar"
  | .indentation => utf8 "indentation"
  | .format => utf8 "format"
  | .structural => utf8 "structural"
  | .reserved code => utf8 "kind(" ++ decimal code.toNat ++ utf8 ")"

end Category

/-- A failure with its context. -/
structure Diagnostic where
  category : Category
  /-- What went wrong. -/
  message : Bytes
  /-- The offending text, shown in single quotes. -/
  subject : Option Bytes := none
  /-- A qualifier after the message; empty when there is none. -/
  detail : Bytes := []
  /-- The line, counted from one; zero or less when unknown. -/
  line : Int := 0
  /-- The file; empty when unknown. -/
  file : Bytes := []
  deriving DecidableEq, Repr

namespace Diagnostic

/-- The diagnostic moved to a position. A line below one and an empty file keep what is known. -/
def atPosition (diagnostic : Diagnostic) (line : Int) (file : Bytes) : Diagnostic :=
  { diagnostic with
    line := if 0 < line then line else diagnostic.line
    file := if file.isEmpty then diagnostic.file else file }

/-- What stands before the cause: message, offending text and qualifier. -/
def heading (diagnostic : Diagnostic) : Bytes :=
  let subject := match diagnostic.subject with
    | some text => utf8 " '" ++ text ++ utf8 "'"
    | none => []
  let detail := if diagnostic.detail.isEmpty then [] else 0x20 :: diagnostic.detail
  diagnostic.message ++ subject ++ detail

/-- What stands after the cause: line and file, as far as they are known. -/
def position (diagnostic : Diagnostic) : Bytes :=
  let line := if 0 < diagnostic.line then utf8 " at line " ++ integer diagnostic.line else []
  let file := if diagnostic.file.isEmpty then [] else utf8 " in " ++ diagnostic.file
  line ++ file

/-- The report of a diagnostic without a cause. -/
def text (diagnostic : Diagnostic) : Bytes :=
  diagnostic.heading ++ diagnostic.position

/-- The report of a diagnostic with the report of its cause. -/
def textWithCause (diagnostic : Diagnostic) (cause : Bytes) : Bytes :=
  let heading := diagnostic.heading
  heading ++ (if heading.isEmpty then [] else utf8 ": ") ++ cause ++ diagnostic.position

end Diagnostic

/-- A failure, with the chain of failures that caused it. -/
inductive Failure where
  /-- A text without a category. -/
  | plain (message : Bytes)
  /-- A bare category. -/
  | bare (category : Category)
  /-- A diagnostic at the end of its chain. -/
  | single (diagnostic : Diagnostic)
  /-- A diagnostic with its cause. -/
  | caused (diagnostic : Diagnostic) (cause : Failure)
  /-- A failure with a remark. -/
  | noted (failure : Failure) (remark : Bytes)
  deriving DecidableEq, Repr

namespace Failure

/-- The report of a failure. -/
def text : Failure → Bytes
  | .plain message => message
  | .bare category => category.name ++ utf8 " error"
  | .single diagnostic => diagnostic.text
  | .caused diagnostic cause => diagnostic.textWithCause cause.text
  | .noted failure remark => failure.text ++ utf8 ": " ++ remark

/-- The first diagnostic of the chain. -/
def diagnostic? : Failure → Option Diagnostic
  | .plain _ => none
  | .bare _ => none
  | .single diagnostic => some diagnostic
  | .caused diagnostic _ => some diagnostic
  | .noted failure _ => failure.diagnostic?

/-- The category of a failure, if it has one. -/
def category? (failure : Failure) : Option Category :=
  failure.diagnostic?.map Diagnostic.category

/-- Whether a category occurs anywhere in the chain. -/
def isOf (category : Category) : Failure → Bool
  | .plain _ => false
  | .bare own => own = category
  | .single diagnostic => diagnostic.category = category
  | .caused diagnostic cause => diagnostic.category = category || cause.isOf category
  | .noted failure _ => failure.isOf category

/-- The failure one step down the chain. -/
def cause? : Failure → Option Failure
  | .caused _ cause => some cause
  | .noted failure _ => some failure
  | _ => none

/-- Moves the head of the chain to a position, if it is a diagnostic. -/
def atPosition (line : Int) (file : Bytes) : Failure → Failure
  | .single diagnostic => .single (diagnostic.atPosition line file)
  | .caused diagnostic cause => .caused (diagnostic.atPosition line file) cause
  | other => other

end Failure

end LineScript
