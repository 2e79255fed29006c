import LineScript.Proofs.Bytes.Numeral
import LineScript.Proofs.Word.OnePass
import Mathlib.Data.List.TakeWhile

/-!
Comments at the end of a line. A comment that starts where no quoted text and no parenthesis is open
says nothing: the line has the words and the failure that it has without the comment, whatever the
comment holds. No word reaches into the comment, since a semicolon continues no word, and a slash
continues operators only.
-/

set_option autoImplicit false
set_option relaxedAutoImplicit false

namespace LineScript

open Bytes

/-! ### Closed bytes -/

/-- Bytes that leave neither quoted text nor a parenthesis open, and close no parenthesis that they
do not open. -/
def IsClosed (bytes : Bytes) : Prop :=
  Nesting.run? ⟨0, .outside⟩ bytes = some ⟨0, .outside⟩

instance (bytes : Bytes) : Decidable (IsClosed bytes) :=
  inferInstanceAs (Decidable (Nesting.run? ⟨0, .outside⟩ bytes = some ⟨0, .outside⟩))

theorem Nesting.run?_append (nesting : Nesting) (first second : Bytes) :
    nesting.run? (first ++ second) = (nesting.run? first).bind fun next ↦ next.run? second := by
  induction first generalizing nesting with
  | nil => rfl
  | cons byte rest ih =>
    rw [List.cons_append, run?, run?, Option.bind_assoc]
    exact congrArg _ (funext ih)

/-- What plain bytes leave of closed bytes is closed. -/
theorem IsClosed.of_plain_append {first second : Bytes} (h : IsClosed (first ++ second))
    (hplain : ∀ byte ∈ first, isPlain byte = true) : IsClosed second := by
  unfold IsClosed at h ⊢
  rwa [Nesting.run?_append, Nesting.run?_plain hplain] at h

/-- Closed bytes from the opening parenthesis of a group on have the parenthesis that closes it, and
what follows that is closed. -/
theorem IsClosed.exists_group {rest : Bytes} (h : IsClosed (0x28 :: rest)) :
    ∃ inner after, rest = inner ++ 0x29 :: after ∧ IsClosed inner ∧ IsClosed after := by
  have hopen : Nesting.run? ⟨1, .outside⟩ rest = some ⟨0, .outside⟩ := h
  rcases closing_cases ⟨0, .outside⟩ rest with ⟨⟨depth, quoting⟩, hrun⟩ | ⟨inner, after, rfl, hrun⟩
  · rw [Nesting.run?_deeper hrun] at hopen
    cases hopen
  · rw [Nesting.run?_append, Nesting.run?_deeper hrun] at hopen
    exact ⟨inner, after, rfl, hrun, hopen⟩

theorem not_isClosed_closing (rest : Bytes) : ¬ IsClosed (0x29 :: rest) := by
  rintro ⟨⟩

/-! ### What follows a word -/

/-- A byte that no word of a line goes on with: it is part of no name, number or character, and if
it is part of operators, the line does not end in one. -/
structure Separates (line : Bytes) (separator : UInt8) : Prop where
  name : isNameByte separator = false
  point : separator ≠ 0x2E
  character : Text.isContinuation separator = false
  operator : isOperatorByte separator = true → ∀ last ∈ line.getLast?, isOperatorByte last = false

theorem Separates.of_suffix {line left : Bytes} {separator : UInt8}
    (h : Separates line separator) (hsuffix : left <:+ line) : Separates left separator where
  name := h.name
  point := h.point
  character := h.character
  operator := by
    obtain ⟨taken, rfl⟩ := hsuffix
    intro hoperator last hlast
    refine h.operator hoperator last ?_
    rw [List.getLast?_append, Option.mem_def.mp hlast]
    rfl

theorem Separates.digit {line : Bytes} {separator : UInt8} (h : Separates line separator) :
    isDigit separator = false :=
  (Bool.or_eq_false_iff.mp h.name).2

theorem Separates.nameStart {line : Bytes} {separator : UInt8} (h : Separates line separator) :
    isNameStart separator = false :=
  (Bool.or_eq_false_iff.mp h.name).1

theorem any_head?_append {property : UInt8 → Bool} {separator : UInt8}
    (h : property separator = false) (line tail : Bytes) :
    (line ++ separator :: tail).head?.any property = line.head?.any property := by
  cases line with
  | nil => exact h
  | cons byte rest => rfl

/-- Bytes that share a property which a separator lacks are the same before it. -/
theorem span_append_separator {property : UInt8 → Bool} {separator : UInt8}
    (h : property separator = false) (line tail : Bytes) :
    (line ++ separator :: tail).takeWhile property = line.takeWhile property ∧
      (line ++ separator :: tail).dropWhile property =
        line.dropWhile property ++ separator :: tail := by
  have hrun : ∀ byte ∈ line.takeWhile property, property byte = true :=
    fun byte ↦ List.mem_takeWhile_imp
  have hrest : ∀ byte ∈ (line.dropWhile property ++ separator :: tail).head?,
      property byte = false := by
    intro byte hbyte
    have hnot := List.head?_dropWhile_not property line
    cases hdrop : line.dropWhile property with
    | nil =>
      rw [hdrop] at hbyte
      cases hbyte
      exact h
    | cons first rest =>
      rw [hdrop] at hbyte hnot
      cases hbyte
      exact hnot
  have hspan := span_append hrun hrest
  rwa [← List.append_assoc, List.takeWhile_append_dropWhile] at hspan

section Words

variable {separator : UInt8}

theorem nameWord_append_separator (h : isNameByte separator = false) (kind : Kind)
    (line tail : Bytes) :
    nameWord kind (line ++ separator :: tail) =
      ((nameWord kind line).1, (nameWord kind line).2 ++ separator :: tail) := by
  obtain ⟨htake, hdrop⟩ := span_append_separator h line tail
  rw [nameWord, htake, hdrop]
  rfl

theorem numeral_append_separator (hdigit : isDigit separator = false) (hpoint : separator ≠ 0x2E)
    (line tail : Bytes) :
    numeral (line ++ separator :: tail) =
      ((numeral line).1, (numeral line).2 ++ separator :: tail) := by
  obtain ⟨htake, hdrop⟩ := span_append_separator hdigit line tail
  by_cases hline : 0x2E ∈ (line.dropWhile isDigit).head?
  · obtain ⟨rest, hrest⟩ := List.head?_eq_some_iff.mp hline
    obtain ⟨htake', hdrop'⟩ := span_append_separator hdigit rest tail
    rw [hrest, List.cons_append] at hdrop
    rw [numeral_of_point hdrop, numeral_of_point hrest, htake, htake', hdrop']
  · have hnone : 0x2E ∉ ((line ++ separator :: tail).dropWhile isDigit).head? := by
      rw [hdrop]
      cases hrest : line.dropWhile isDigit with
      | nil => exact fun hmem ↦ hpoint (Option.some.inj hmem)
      | cons first rest =>
        rw [hrest] at hline
        exact hline
    rw [numeral_of_no_point hnone, numeral_of_no_point hline, htake, hdrop]

/-- An operator at the end of the line is not continued, since the separator is then none. -/
theorem not_isOperatorByte_separator {byte : UInt8} (h : Separates [byte] separator)
    (hbyte : isOperatorByte byte = true) : ¬ isOperatorByte separator = true := by
  intro hseparator
  exact Bool.false_ne_true ((h.operator hseparator byte rfl).symm.trans hbyte)

theorem operatorWord_append_separator {byte : UInt8} {rest : Bytes}
    (h : Separates (byte :: rest) separator) (hbyte : isOperatorByte byte = true)
    (hcomment : startsComment byte rest = false) (tail : Bytes) :
    operatorWord byte (rest ++ separator :: tail) =
      ((operatorWord byte rest).1, (operatorWord byte rest).2 ++ separator :: tail) := by
  cases rest with
  | nil =>
    exact operatorWord_of_not_isOperatorByte (not_isOperatorByte_separator h hbyte) tail
  | cons second rest =>
    have hslashes := not_slashes_of_startsComment hcomment
    rw [List.cons_append, operatorWord, operatorWord, if_neg hslashes, if_neg hslashes]
    split_ifs
    · rfl
    · rfl

theorem startsComment_append_separator {byte : UInt8} {rest : Bytes}
    (h : Separates (byte :: rest) separator) (tail : Bytes) :
    startsComment byte (rest ++ separator :: tail) = startsComment byte rest := by
  cases rest with
  | nil =>
    by_cases hslash : byte = 0x2F
    · subst hslash
      have hother : separator ≠ 0x2F := by
        rintro rfl
        exact not_isOperatorByte_separator h rfl rfl
      simp [startsComment, hother]
    · simp [startsComment, hslash]
  | cons second rest => rfl

theorem isSkipped_append_separator {byte : UInt8} {rest : Bytes}
    (h : Separates (byte :: rest) separator) (tail : Bytes) :
    isSkipped byte (rest ++ separator :: tail) = isSkipped byte rest := by
  rw [isSkipped, isSkipped, any_head?_append h.nameStart]

end Words

/-- Quoted text that is closed is read in the same way whatever follows the line, and what follows
the text is closed. -/
theorem quotedText_append {rest : Bytes}
    (h : Nesting.run? ⟨0, .inside⟩ rest = some ⟨0, .outside⟩) (tail : Bytes) :
    quotedText (rest ++ tail) = ((quotedText rest).1, (quotedText rest).2 ++ tail) ∧
      IsClosed (quotedText rest).2 ∧ (quotedText rest).2 <:+ rest := by
  induction rest using quotedText_induction with
  | nil => cases h
  | quote rest => exact ⟨rfl, h, List.suffix_cons _ _⟩
  | cutShort => cases h
  | escape byte rest ih =>
    obtain ⟨happend, hclosed, hsuffix⟩ := ih h
    rw [quotedText_escape]
    refine ⟨?_, hclosed, hsuffix.trans ⟨[0x5C, byte], rfl⟩⟩
    rw [List.cons_append, List.cons_append, quotedText_escape, happend]
  | other byte rest hquote hbackslash ih =>
    have hstep : Nesting.step? ⟨0, .inside⟩ byte = some ⟨0, .inside⟩ := by
      simp [Nesting.step?, Quoting.step, hquote, hbackslash]
    rw [Nesting.run?, hstep] at h
    obtain ⟨happend, hclosed, hsuffix⟩ := ih h
    rw [quotedText_cons hquote hbackslash]
    refine ⟨?_, hclosed, hsuffix.trans (List.suffix_cons byte rest)⟩
    rw [List.cons_append, quotedText_cons hquote hbackslash, happend]

/-! ### Scanning -/

/-- What is left of a line when plain bytes are taken off it. -/
def LeftByPlain (line left : Bytes) : Prop :=
  ∃ taken, line = taken ++ left ∧ ∀ byte ∈ taken, isPlain byte = true

theorem leftByPlain_dropWhile {property : UInt8 → Bool} (hquote : property 0x22 = false)
    (hopening : property 0x28 = false) (hclosing : property 0x29 = false) (line : Bytes) :
    LeftByPlain line (line.dropWhile property) :=
  ⟨line.takeWhile property, List.takeWhile_append_dropWhile.symm, fun _ hbyte ↦
    isPlain_of_property property hquote hopening hclosing (List.mem_takeWhile_imp hbyte)⟩

theorem LeftByPlain.cons {line left : Bytes} {byte : UInt8} (hbyte : isPlain byte = true)
    (h : LeftByPlain line left) : LeftByPlain (byte :: line) left := by
  obtain ⟨taken, rfl, hplain⟩ := h
  exact ⟨byte :: taken, rfl, List.forall_mem_cons.mpr ⟨hbyte, hplain⟩⟩

theorem LeftByPlain.trans {line middle left : Bytes} (h : LeftByPlain line middle)
    (hmiddle : LeftByPlain middle left) : LeftByPlain line left := by
  obtain ⟨taken, rfl, hplain⟩ := h
  obtain ⟨more, rfl, hmore⟩ := hmiddle
  exact ⟨taken ++ more, (List.append_assoc _ _ _).symm, List.forall_mem_append.mpr ⟨hplain, hmore⟩⟩

theorem leftByPlain_refl (line : Bytes) : LeftByPlain line line :=
  ⟨[], rfl, List.forall_mem_nil _⟩

theorem leftByPlain_numeral (line : Bytes) : LeftByPlain line (numeral line).2 := by
  have hdrop := @leftByPlain_dropWhile isDigit rfl rfl rfl
  by_cases hpoint : 0x2E ∈ (line.dropWhile isDigit).head?
  · obtain ⟨rest, hrest⟩ := List.head?_eq_some_iff.mp hpoint
    have hwhole := hdrop line
    rw [hrest] at hwhole
    rw [numeral_of_point hrest]
    exact hwhole.trans ((hdrop rest).cons rfl)
  · rw [numeral_of_no_point hpoint]
    exact hdrop line

theorem leftByPlain_operatorWord {byte : UInt8} {rest : Bytes}
    (hcomment : startsComment byte rest = false) : LeftByPlain rest (operatorWord byte rest).2 := by
  cases rest with
  | nil => exact leftByPlain_refl []
  | cons second rest =>
    rw [operatorWord, if_neg (not_slashes_of_startsComment hcomment)]
    split_ifs with hoperator
    · exact (leftByPlain_refl rest).cons (isPlain_of_property isOperatorByte rfl rfl rfl hoperator)
    · exact leftByPlain_refl (second :: rest)

/-- Every word but a text or a group is made of plain bytes. -/
theorem leftByPlain_scan {byte : UInt8} {rest : Bytes} (hplain : isPlain byte = true)
    (hskipped : isSkipped byte rest = false) (hcomment : startsComment byte rest = false) :
    LeftByPlain (byte :: rest) (scan (byte :: rest)).2 := by
  obtain ⟨hquote, hopening, -⟩ := (isPlain_iff byte).mp hplain
  obtain ⟨hleadQuote, hleadOpening, hleadSemicolon⟩ := byte_eq_of_lead byte
  have hname := @leftByPlain_dropWhile isNameByte rfl rfl rfl
  have hsingle := (leftByPlain_refl rest).cons hplain
  cases hlead : Lead.ofByte byte with
  | space => simp [isSkipped, hlead] at hskipped
  | tab => simpa only [scan, hlead] using hsingle
  | comma => simpa only [scan, hlead] using hsingle
  | trail => simpa only [scan, hlead] using hsingle
  | cast => simpa only [scan, hlead] using hsingle
  | dollar =>
    simp only [isSkipped, hlead, Bool.not_eq_false'] at hskipped
    simp only [scan, hlead, if_pos hskipped]
    exact (hname rest).cons hplain
  | atSign =>
    simp only [isSkipped, hlead, Bool.not_eq_false'] at hskipped
    simp only [scan, hlead, if_pos hskipped]
    exact (hname rest).cons hplain
  | quote => exact absurd (hleadQuote hlead) hquote
  | opening => exact absurd (hleadOpening hlead) hopening
  | semicolon => simp [startsComment, hleadSemicolon hlead] at hcomment
  | operator => simpa only [scan, hlead] using (leftByPlain_operatorWord hcomment).cons hplain
  | digit => simpa only [scan, hlead] using leftByPlain_numeral (byte :: rest)
  | letter =>
    simp only [scan, hlead]
    exact hname (byte :: rest)
  | other =>
    cases hfirst : Text.first? (byte :: rest) with
    | none => simpa only [scan, hlead, hfirst] using hsingle
    | some found =>
      have hleft : LeftByPlain rest found.2 := exists_plain_of_first? hfirst
      simpa only [scan, hlead, hfirst] using hleft.cons hplain

theorem isOperatorByte_of_lead {byte : UInt8} (h : Lead.ofByte byte = .operator) :
    isOperatorByte byte = true := by
  unfold Lead.ofByte at h
  repeat' split at h
  all_goals first | assumption | cases h

/-- No word but a group reaches into what follows a separator. -/
theorem scan_append_separator {byte separator : UInt8} {rest : Bytes}
    (hseparator : Separates (byte :: rest) separator) (hplain : isPlain byte = true)
    (hskipped : isSkipped byte rest = false) (hcomment : startsComment byte rest = false)
    (tail : Bytes) :
    scan (byte :: rest ++ separator :: tail) =
      ((scan (byte :: rest)).1, (scan (byte :: rest)).2 ++ separator :: tail) := by
  obtain ⟨hquote, hopening, -⟩ := (isPlain_iff byte).mp hplain
  obtain ⟨hleadQuote, hleadOpening, hleadSemicolon⟩ := byte_eq_of_lead byte
  have hname := nameWord_append_separator hseparator.name
  rw [List.cons_append]
  cases hlead : Lead.ofByte byte with
  | space => simp [isSkipped, hlead] at hskipped
  | tab => simp only [scan, hlead]
  | comma => simp only [scan, hlead]
  | trail => simp only [scan, hlead]
  | cast => simp only [scan, hlead]
  | dollar =>
    simp only [isSkipped, hlead, Bool.not_eq_false'] at hskipped
    simp only [scan, hlead, any_head?_append hseparator.nameStart, if_pos hskipped]
    exact hname .varname rest tail
  | atSign =>
    simp only [isSkipped, hlead, Bool.not_eq_false'] at hskipped
    simp only [scan, hlead, any_head?_append hseparator.nameStart, if_pos hskipped]
    exact hname .funcname rest tail
  | quote => exact absurd (hleadQuote hlead) hquote
  | opening => exact absurd (hleadOpening hlead) hopening
  | semicolon => simp [startsComment, hleadSemicolon hlead] at hcomment
  | operator =>
    simp only [scan, hlead]
    exact operatorWord_append_separator hseparator (isOperatorByte_of_lead hlead) hcomment tail
  | digit =>
    have hnumeral := numeral_append_separator hseparator.digit hseparator.point (byte :: rest) tail
    rw [List.cons_append] at hnumeral
    simp only [scan, hlead, hnumeral]
  | letter =>
    simp only [scan, hlead]
    exact hname .name (byte :: rest) tail
  | other =>
    have hfirst := Text.first?_append hseparator.character byte rest tail
    rw [List.cons_append] at hfirst
    cases hfound : Text.first? (byte :: rest) with
    | none => simp only [scan, hlead, hfirst, hfound, Option.map_none]
    | some found => simp only [scan, hlead, hfirst, hfound, Option.map_some]

/-- A closed line has its first word also before a separator, and what the word leaves is closed. -/
theorem scan_append_of_isClosed {byte separator : UInt8} {rest : Bytes}
    (hclosed : IsClosed (byte :: rest)) (hseparator : Separates (byte :: rest) separator)
    (hskipped : isSkipped byte rest = false) (hcomment : startsComment byte rest = false)
    (hopening : byte ≠ 0x28) (tail : Bytes) :
    scan (byte :: rest ++ separator :: tail) =
        ((scan (byte :: rest)).1, (scan (byte :: rest)).2 ++ separator :: tail) ∧
      IsClosed (scan (byte :: rest)).2 ∧ (scan (byte :: rest)).2 <:+ byte :: rest := by
  by_cases hquote : byte = 0x22
  · subst hquote
    obtain ⟨happend, hleft, hsuffix⟩ := quotedText_append hclosed (separator :: tail)
    rw [List.cons_append, scan_quote, scan_quote, happend]
    exact ⟨rfl, hleft, hsuffix.trans (List.suffix_cons _ _)⟩
  · have hclosing : byte ≠ 0x29 := by
      rintro rfl
      exact not_isClosed_closing rest hclosed
    have hplain : isPlain byte = true := (isPlain_iff byte).mpr ⟨hquote, hopening, hclosing⟩
    obtain ⟨taken, hline, htaken⟩ := leftByPlain_scan hplain hskipped hcomment
    refine ⟨scan_append_separator hseparator hplain hskipped hcomment tail, ?_, taken, hline.symm⟩
    rw [hline] at hclosed
    exact hclosed.of_plain_append htaken

/-! ### Lines -/

/-- By induction along the line: its groups are closed before the comment starts, and its words are
the same with the comment after them. -/
theorem tokenize_append_separator {separator : UInt8} {tail : Bytes}
    (hstarts : startsComment separator tail = true) (limit : Int) {line : Bytes}
    (hclosed : IsClosed line) (hseparator : Separates line separator) :
    tokenize limit (line ++ separator :: tail) = tokenize limit line := by
  induction line using line_induction with
  | nil => rw [List.nil_append, tokenize_of_startsComment hstarts, tokenize_nil]
  | skipped byte rest hskipped ih =>
    have hplain : ∀ other ∈ [byte], isPlain other = true := by
      simpa using isPlain_of_isSkipped hskipped
    have hrest : IsClosed rest := IsClosed.of_plain_append hclosed hplain
    have happend := (isSkipped_append_separator hseparator tail).trans hskipped
    rw [List.cons_append, tokenize_of_isSkipped happend, tokenize_of_isSkipped hskipped]
    exact ih hrest (hseparator.of_suffix (List.suffix_cons byte rest))
  | comment byte rest hcomment =>
    have happend := (startsComment_append_separator hseparator tail).trans hcomment
    rw [List.cons_append, tokenize_of_startsComment happend, tokenize_of_startsComment hcomment]
  | group rest _ ih =>
    obtain ⟨inner, after, rfl, hinner, hafter⟩ := hclosed.exists_group
    rw [cut_closing hinner] at ih
    have hsuffix : after <:+ 0x28 :: (inner ++ 0x29 :: after) :=
      ((List.suffix_cons _ _).trans (List.suffix_append inner _)).trans (List.suffix_cons _ _)
    rw [List.cons_append, List.append_assoc, List.cons_append, tokenize_opening, tokenize_opening,
      cut_closing hinner, cut_closing hinner, ih hafter (hseparator.of_suffix hsuffix)]
  | word byte rest hskipped hcomment hopening ih =>
    obtain ⟨hscan, hleft, hsuffix⟩ :=
      scan_append_of_isClosed hclosed hseparator hskipped hcomment hopening tail
    obtain ⟨hempty, hgroup⟩ :=
      kind_scan (Bool.eq_false_iff.mp hskipped) (Bool.eq_false_iff.mp hcomment) hopening
    rw [tokenize_of_scan hscan hempty hgroup, tokenize_of_scan rfl hempty hgroup,
      ih hleft (hseparator.of_suffix hsuffix)]

/-- A comment after a closed line changes neither its words nor its failure. One that two slashes
start does so only if the line does not end in a byte of operators. -/
theorem tokenize_append_comment (limit : Int) {line : Bytes} (hclosed : IsClosed line)
    (comment : Bytes) :
    tokenize limit (line ++ 0x3B :: comment) = tokenize limit line ∧
      ((∀ last ∈ line.getLast?, isOperatorByte last = false) →
        tokenize limit (line ++ 0x2F :: 0x2F :: comment) = tokenize limit line) := by
  constructor
  · refine tokenize_append_separator rfl limit hclosed ⟨by decide, by decide, by decide, ?_⟩
    intro hsemicolon
    exact absurd hsemicolon (by decide)
  · intro hlast
    exact tokenize_append_separator rfl limit hclosed
      ⟨by decide, by decide, by decide, fun _ ↦ hlast⟩

/-- A slash at the end of a line would be taken together with the first slash of the comment. -/
example : tokenize 0 (utf8 "1 /" ++ utf8 "// half") ≠ tokenize 0 (utf8 "1 /") := by
  decide +kernel

/-- A text with all that could end the line, a comment in a group whose quotes hide a parenthesis,
and a dollar sign with no name after it. -/
def crowdedLine : Bytes :=
  utf8 "@F(\"a;\\\")\", (1. ; \"x)\" //)) $"

theorem tokenize_append_comment_crowdedLine :
    (IsClosed crowdedLine ∧ ∀ last ∈ crowdedLine.getLast?, isOperatorByte last = false) ∧
      tokenize 4 (crowdedLine ++ 0x3B :: utf8 ") \" (") = tokenize 4 crowdedLine ∧
      tokenize 4 (crowdedLine ++ 0x2F :: 0x2F :: utf8 ") \" (") = tokenize 4 crowdedLine := by
  have hclosed : IsClosed crowdedLine := by decide +kernel
  have hlast : ∀ last ∈ crowdedLine.getLast?, isOperatorByte last = false := by decide +kernel
  obtain ⟨hsemicolon, hslashes⟩ := tokenize_append_comment 4 hclosed (utf8 ") \" (")
  exact ⟨⟨hclosed, hlast⟩, hsemicolon, hslashes hlast⟩

end LineScript
