import LineScript.Diagnostic
import LineScript.Word.Operator
import LineScript.Word.Scan

/-!
Tokenizing cuts a line into its words. A parenthesised group is tokenized in turn and put between
an opening and a closing parenthesis. Tabs are kept, so that the scope of the line can be read
off. The words before the first failure are returned beside it.
-/

set_option autoImplicit false
set_option relaxedAutoImplicit false

namespace LineScript

open Bytes

/-- What is no word of the language. -/
inductive LexicalError where
  | invalidCharacter (text : Bytes)
  | textTooLong (text : Bytes)
  | invalidOperator (text : Bytes)
  deriving DecidableEq, Repr

/-- The report of a lexical failure. A text that is too long is shown by its first 16 bytes. -/
def LexicalError.diagnostic : LexicalError → Diagnostic
  | .invalidCharacter text =>
    { category := .lexical, message := utf8 "Invalid character", subject := some text }
  | .textTooLong text =>
    { category := .lexical, message := utf8 "Text too long", subject := some (excerpt 16 text) }
  | .invalidOperator text =>
    { category := .lexical, message := utf8 "Invalid operator", subject := some text }

/-- The words of a line up to its first failure. -/
structure Tokens where
  words : List Word
  error : Option LexicalError
  deriving DecidableEq, Repr

/-- The tokens with a word before them. -/
def Tokens.cons (word : Word) (tokens : Tokens) : Tokens :=
  ⟨word :: tokens.words, tokens.error⟩

/-- The tokens of a group followed by those of the rest of the line, which do not count when the
group has a failure. -/
def Tokens.enclose (inner after : Tokens) : Tokens :=
  match inner.error with
  | some error => ⟨Word.opening :: inner.words, some error⟩
  | none => ⟨Word.opening :: inner.words ++ Word.closing :: after.words, after.error⟩

/-- Whether a text exceeds a limit; a limit below one allows every text. -/
def exceeds (limit : Int) (text : Bytes) : Bool :=
  0 < limit && limit < text.length

/-- A group is shorter than the line it is cut from. -/
theorem length_group_lt (line : Bytes) (h : (scan line).1.kind = .group) :
    (scan line).1.text.length < line.length := by
  fun_induction scan line with
  | case2 byte rest hlead ih => have := ih h; simp only [List.length_cons]; omega
  | case8 byte rest hlead hname ih => have := ih h; simp only [List.length_cons]; omega
  | case10 byte rest hlead hname ih => have := ih h; simp only [List.length_cons]; omega
  | case12 byte rest hlead inner after hread =>
    have := length_enclosed_le ⟨0, .outside⟩ rest
    simp_all only [List.length_cons]; omega
  | case14 byte rest hlead =>
    unfold operatorWord at h
    repeat' split at h
    all_goals simp [Word.empty] at h
  | _ => simp [Word.empty, Word.tab, Word.comma, Word.trail, Word.cast, nameWord] at h

/-- Why a word must not stand in a line: it is no word, a text above the limit, or an operator the
language does not define. -/
def Word.refusal? (limit : Int) (word : Word) : Option LexicalError :=
  match word.kind with
  | .invalid => some (.invalidCharacter word.text)
  | .text => if exceeds limit word.text then some (.textTooLong word.text) else none
  | .operator => if word.operatorClass?.isNone then some (.invalidOperator word.text) else none
  | _ => none

/-- The words of a line, with texts of at most `limit` bytes when the limit is above zero. -/
def tokenize (limit : Int) (line : Bytes) : Tokens :=
  match _h : scan line with
  | (word, rest) =>
    if word.kind = .empty then ⟨[], none⟩
    else
      match word.refusal? limit with
      | some error => ⟨[], some error⟩
      | none =>
        if word.kind = .group then (tokenize limit word.text).enclose (tokenize limit rest)
        else (tokenize limit rest).cons word
termination_by line.length
decreasing_by
  · simpa [_h] using length_group_lt line (by simpa [_h])
  · simpa [_h] using length_scan_lt line (by simpa [_h])
  · simpa [_h] using length_scan_lt line (by simpa [_h])

/-- The limit on texts unless another is set: the longest text an image may hold. -/
def defaultTextLimit : Int := 256

end LineScript
