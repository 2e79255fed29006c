import LineScript.Proofs.Word.OnePass
import LineScript.Proofs.Word.WellFormed
import LineScript.Source

/-!
Words read back from their rendering. A well-formed word, rendered and followed by a space or by
nothing, is the next word of the line; so words rendered one space apart are found again by one pass
over the line, which meets each parenthesis at the depth at which it stands. Since that pass gives
what tokenizing gives, tokenizing undoes rendering on words with balanced parentheses, whatever
quotes, parentheses and semicolons their texts hold.
-/

set_option autoImplicit false
set_option relaxedAutoImplicit false

namespace LineScript

open Bytes

/-- An ASCII character that shows something, or a space. -/
def isVisible (byte : UInt8) : Bool :=
  0x20 ≤ byte && byte ≤ 0x7E

/-- A well-formed word that is rendered as it stands in a source: a tab is not, nor is a text with
characters that quoting shows by a letter or a number. -/
def Word.isLegible (word : Word) : Bool :=
  word.isWellFormed && word.kind != .tab && (word.kind != .text || word.text.all isVisible)

theorem Word.isLegible_iff (word : Word) :
    word.isLegible = true ↔ word.isWellFormed = true ∧ word.kind ≠ .tab ∧
      (word.kind = .text → ∀ byte ∈ word.text, isVisible byte = true) := by
  simp [isLegible, and_assoc, imp_iff_not_or]

/-! ### Bytes -/

theorem lead_of_isOperatorByte {byte : UInt8} (h : isOperatorByte byte = true) :
    Lead.ofByte byte = .operator := by
  unfold Lead.ofByte
  split
  all_goals first | cases h | exact if_pos h

theorem lead_of_isNameByte :
    ∀ byte, (isNameStart byte = true → Lead.ofByte byte = .letter) ∧
      (isDigit byte = true → Lead.ofByte byte = .digit) :=
  forall_byte (by decide +kernel)

theorem isNameStart_of_isIdentifierStart {byte : UInt8} (h : isIdentifierStart byte = true) :
    isNameStart byte = true := by
  rw [isIdentifierStart, Bool.or_eq_true] at h
  rcases h with hsmall | hunderscore
  · rw [isNameStart, hsmall, Bool.true_or, Bool.true_or]
  · rw [isNameStart, hunderscore, Bool.or_true]

theorem quotedChar_of_isVisible :
    ∀ byte, isVisible byte = true → Text.quotedChar (Char.ofNat byte.toNat) =
      if byte = 0x22 ∨ byte = 0x5C then [0x5C, byte] else [byte] :=
  forall_byte (by decide +kernel)

theorem lt_of_isVisible {byte : UInt8} (h : isVisible byte = true) : byte < 0x80 := by
  rw [isVisible, Bool.and_eq_true, decide_eq_true_eq, decide_eq_true_eq] at h
  exact UInt8.lt_of_le_of_lt h.2 (by decide)

/-! ### One word -/

/-- Reading quoted text undoes the quoting of visible characters, also where they are quotes or
backslashes. -/
theorem quotedText_quoted {text : Bytes} (h : ∀ byte ∈ text, isVisible byte = true) (tail : Bytes) :
    quotedText ((Text.pieces text).flatMap Text.Piece.quoted ++ 0x22 :: tail) = (text, tail) := by
  induction text with
  | nil => simp [Text.pieces, quotedText]
  | cons byte rest ih =>
    rw [List.forall_mem_cons] at h
    have hread := ih h.2
    have hquoted := quotedChar_of_isVisible byte h.1
    rw [Text.pieces_ascii (lt_of_isVisible h.1), List.flatMap_cons, Text.Piece.quoted, hquoted]
    split_ifs with hspecial
    · rw [List.append_assoc, List.cons_append, List.cons_append, List.nil_append, quotedText, hread]
    · rw [not_or] at hspecial
      rw [List.append_assoc, List.cons_append, List.nil_append,
        quotedText_cons hspecial.1 hspecial.2, hread]

/-- One byte of operators, or two that start no comment. -/
def isOperatorSpelling : Bytes → Bool
  | [byte] => isOperatorByte byte
  | [byte, second] =>
    isOperatorByte byte && isOperatorByte second && !(byte == 0x2F && second == 0x2F)
  | _ => false

theorem isOperatorSpelling_of_mem :
    ∀ entry ∈ operatorTable, isOperatorSpelling entry.1 = true := by
  decide

theorem isOperatorSpelling_of_isWellFormed {text : Bytes}
    (h : (Word.mk .operator text).isWellFormed = true) : isOperatorSpelling text = true := by
  have hsome : (operatorTable.lookup text).isSome = true := h
  obtain ⟨entry, hentry, htext⟩ := List.lookup_isSome_iff.mp hsome
  rw [eq_of_beq htext]
  exact isOperatorSpelling_of_mem entry hentry

theorem scan_operator {text tail : Bytes} (h : isOperatorSpelling text = true)
    (htail : EndsWord tail) : scan (text ++ tail) = (⟨.operator, text⟩, tail) := by
  match text with
  | [] => cases h
  | [byte] =>
    have hscan : scan (byte :: tail) = operatorWord byte tail := by
      simp only [scan, lead_of_isOperatorByte h]
    rw [List.singleton_append, hscan]
    cases tail with
    | nil => rfl
    | cons space rest =>
      obtain rfl : space = 0x20 := htail space rfl
      rw [operatorWord, if_neg (fun hslashes ↦ absurd hslashes.2 (by decide)), if_neg (by decide)]
  | [byte, second] =>
    simp only [isOperatorSpelling, Bool.and_eq_true, Bool.not_eq_true', Bool.and_eq_false_iff,
      beq_eq_false_iff_ne, and_assoc] at h
    obtain ⟨hbyte, hsecond, hslashes⟩ := h
    simp only [List.cons_append, List.nil_append, scan, lead_of_isOperatorByte hbyte]
    rw [operatorWord, if_neg (fun hboth ↦ hslashes.elim (· hboth.1) (· hboth.2)), if_pos hsecond]
  | _ :: _ :: _ :: _ => cases h

/-- A rendered word is read back, and what follows it is left. -/
theorem scan_render {word : Word} (h : word.isLegible = true) (hopening : word.kind ≠ .opening)
    (hclosing : word.kind ≠ .closing) {tail : Bytes} (htail : EndsWord tail) :
    scan (word.render ++ tail) = (word, tail) := by
  obtain ⟨hform, htab, htext⟩ := word.isLegible_iff.mp h
  obtain ⟨kind, text⟩ := word
  cases kind with
  | name =>
    obtain ⟨byte, rest, rfl, hstart⟩ := exists_cons_of_isIdentifier hform
    have hlead := (lead_of_isNameByte byte).1 (isNameStart_of_isIdentifierStart hstart)
    have hword := nameWord_append hform htail .name
    simp only [Word.render, List.cons_append, scan, hlead] at hword ⊢
    exact hword
  | varname =>
    obtain ⟨byte, rest, rfl, hstart⟩ := exists_cons_of_isIdentifier hform
    have hname := isNameStart_of_isIdentifierStart hstart
    exact (if_pos hname).trans (nameWord_append hform htail .varname)
  | funcname =>
    obtain ⟨byte, rest, rfl, hstart⟩ := exists_cons_of_isIdentifier hform
    have hname := isNameStart_of_isIdentifierStart hstart
    exact (if_pos hname).trans (nameWord_append hform htail .funcname)
  | numeric =>
    obtain ⟨byte, rest, rfl, hdigit⟩ := exists_cons_of_isNumeral hform
    have hword := numeral_append hform htail
    simp only [Word.render, List.cons_append, scan, (lead_of_isNameByte byte).2 hdigit] at hword ⊢
    rw [hword]
  | operator => exact scan_operator (isOperatorSpelling_of_isWellFormed hform) htail
  | text =>
    rw [Word.render, Text.quote, List.cons_append, List.cons_append, scan_quote,
      List.append_assoc, List.singleton_append, quotedText_quoted (htext rfl)]
  | comma =>
    obtain rfl : text = [0x2C] := congrArg Word.text (eq_of_beq hform)
    rfl
  | trail =>
    obtain rfl : text = [0x2E] := congrArg Word.text (eq_of_beq hform)
    rfl
  | cast =>
    obtain rfl : text = [0x3A] := congrArg Word.text (eq_of_beq hform)
    rfl
  -- A tab is rendered as two characters, and of a parenthesis scanning takes the whole group.
  | tab => exact absurd rfl htab
  | opening => exact absurd rfl hopening
  | closing => exact absurd rfl hclosing
  | _ => cases hform

/-! ### One pass -/

/-- One pass meets the next word of a line as scanning does, unless that is a group or no word. -/
theorem onePass_of_scan {line after : Bytes} {word : Word} (h : scan line = (word, after))
    (hempty : word.kind ≠ .empty) (hgroup : word.kind ≠ .group) (hinvalid : word.kind ≠ .invalid)
    {limit : Int} (hrefusal : word.refusal? limit = none) (depth : Nat) :
    onePass limit depth line = (onePass limit depth after).cons word := by
  induction line with
  | nil =>
    cases h
    exact absurd rfl hempty
  | cons byte rest ih =>
    by_cases hskipped : isSkipped byte rest = true
    · rw [scan_of_isSkipped hskipped] at h
      rw [onePass_of_isSkipped hskipped, ih h]
    by_cases hcomment : startsComment byte rest = true
    · rw [scan_of_startsComment hcomment] at h
      cases h
      exact absurd rfl hempty
    by_cases hopening : byte = 0x28
    · rw [hopening, scan_opening] at h
      cases h
      exact absurd rfl hgroup
    by_cases hclosing : byte = 0x29
    · have hkind : (scan (0x29 :: rest)).1.kind = .invalid := rfl
      rw [hclosing] at h
      rw [h] at hkind
      exact absurd hkind hinvalid
    · rw [onePass_word hskipped hcomment hopening hclosing, h]
      simp only [hrefusal]

/-- The first of some rendered words ends where it should, and the words after it are met as if they
stood alone. -/
theorem exists_renderAll_cons (word : Word) (words : List Word) :
    ∃ tail, Word.renderAll (word :: words) = word.render ++ tail ∧ EndsWord tail ∧
      ∀ limit depth, onePass limit depth tail = onePass limit depth (Word.renderAll words) := by
  cases words with
  | nil => exact ⟨[], (List.append_nil _).symm, .nil, fun limit depth ↦ rfl⟩
  | cons next rest =>
    refine ⟨0x20 :: Word.renderAll (next :: rest), ?_, .space _, fun limit depth ↦ ?_⟩
    · rw [Word.renderAll, Word.renderAll, List.map_cons, List.map_cons, Text.joined_cons_cons,
        List.append_assoc, List.singleton_append]
    · exact onePass_of_isSkipped rfl limit depth

/-- One pass finds rendered words again, from any depth at which their parentheses are balanced. -/
theorem onePass_renderAll {limit : Int} {words : List Word} {depth : Nat}
    (hwords : ∀ word ∈ words, word.isLegible = true)
    (hlimit : ∀ word ∈ words, word.kind = .text → exceeds limit word.text = false)
    (hbalanced : Balanced depth words) :
    onePass limit depth (Word.renderAll words) = ⟨words, none⟩ := by
  -- Each parenthesis changes the depth at which the rest of the words is met.
  induction words generalizing depth with
  | nil =>
    rw [hbalanced.depth_eq_zero]
    exact onePass_nil limit 0
  | cons word words ih =>
    rw [List.forall_mem_cons] at hwords hlimit
    obtain ⟨hword, hwords⟩ := hwords
    obtain ⟨hform, -, -⟩ := word.isLegible_iff.mp hword
    obtain ⟨tail, hrender, htail, hrest⟩ := exists_renderAll_cons word words
    rw [hrender]
    by_cases hopening : word.kind = .opening
    · obtain rfl := Word.eq_opening hform hopening
      have hdeeper := ih hwords hlimit.2 (hbalanced.of_opening rfl)
      exact (onePass_opening limit depth tail).trans (by rw [hrest, hdeeper]; rfl)
    by_cases hclosing : word.kind = .closing
    · obtain rfl := Word.eq_closing hform hclosing
      obtain ⟨outer, rfl, hafter⟩ := hbalanced.of_closing rfl
      have houter := ih hwords hlimit.2 hafter
      exact (onePass_closing limit outer tail).trans (by rw [hrest, houter]; rfl)
    · have hscan := scan_render hword hopening hclosing htail
      obtain ⟨hempty, hgroup, hinvalid⟩ := Word.kind_of_isWellFormed hform
      have hrefusal := Word.refusal?_eq_none hform hlimit.1
      rw [onePass_of_scan hscan hempty hgroup hinvalid hrefusal, hrest,
        ih hwords hlimit.2 (hbalanced.of_other hopening hclosing)]
      rfl

/-! ### Lines -/

theorem exceeds_eq_false_iff (limit : Int) (text : Bytes) :
    exceeds limit text = false ↔ limit ≤ 0 ∨ text.length ≤ limit := by
  rw [exceeds, Bool.and_eq_false_iff, decide_eq_false_iff_not, decide_eq_false_iff_not,
    Int.not_lt, Int.not_lt]

/-- Spaces before a line do not count. -/
theorem tokenize_spaces_append (limit : Int) (count : Nat) (line : Bytes) :
    tokenize limit (List.replicate count 0x20 ++ line) = tokenize limit line := by
  induction count with
  | zero => rfl
  | succ count ih =>
    rw [List.replicate_succ, List.cons_append, tokenize_of_isSkipped rfl, ih]

/-- Tokenizing undoes rendering on words with balanced parentheses, and what follows the number in
the row of such a line in a listing is tokenized into the words of the line. -/
theorem tokenize_renderAll (limit : Int) {words : List Word}
    (hwords : ∀ word ∈ words, word.isLegible = true) (hbalanced : Balanced 0 words)
    (hlimit : limit ≤ 0 ∨ ∀ word ∈ words, word.kind = .text → word.text.length ≤ limit) :
    tokenize limit (Word.renderAll words) = ⟨words, none⟩ ∧
      ∀ line : Line, line.words = words → ∃ text,
        line.row = padded 0x20 4 (integer line.number) ++ utf8 ": " ++ text ++ [0x0A] ∧
          tokenize limit text = ⟨words, none⟩ := by
  have hexceeds : ∀ word ∈ words, word.kind = .text → exceeds limit word.text = false := by
    intro word hword hkind
    rw [exceeds_eq_false_iff]
    exact hlimit.imp_right fun hlength ↦ hlength word hword hkind
  have htokens : tokenize limit (Word.renderAll words) = ⟨words, none⟩ :=
    (onePassAgrees limit _).1.symm.trans (onePass_renderAll hwords hexceeds hbalanced)
  refine ⟨htokens, ?_⟩
  rintro line rfl
  have hindent : (List.replicate line.scope (utf8 "    ")).flatten =
      List.replicate (line.scope * 4) 0x20 := by
    have hspaces : utf8 "    " = List.replicate 4 0x20 := rfl
    rw [hspaces, List.flatten_replicate_replicate]
  refine ⟨List.replicate (line.scope * 4) 0x20 ++ Word.renderAll line.words, ?_, ?_⟩
  · simp only [Line.row, hindent, List.append_assoc]
  · rw [tokenize_spaces_append, htokens]

/-- Words with groups inside a group, a text that holds all that has a meaning outside of texts, and
names next to marks and operators. -/
def mixedWords : List Word :=
  [⟨.varname, utf8 "x_1"⟩, ⟨.operator, utf8 "&="⟩, .opening, ⟨.funcname, utf8 "f"⟩, .opening,
   ⟨.text, utf8 "(\"\\;//) "⟩, .comma, .opening, .closing, .closing, ⟨.operator, utf8 "/"⟩,
   ⟨.numeric, utf8 "1."⟩, .trail, ⟨.name, utf8 "size"⟩, .closing, .cast, ⟨.name, utf8 "text"⟩]

theorem tokenize_renderAll_mixedWords :
    ((∀ word ∈ mixedWords, word.isLegible = true) ∧ Balanced 0 mixedWords ∧
      ((8 : Int) ≤ 0 ∨ ∀ word ∈ mixedWords, word.kind = .text → word.text.length ≤ (8 : Int))) ∧
      tokenize 8 (Word.renderAll mixedWords) = ⟨mixedWords, none⟩ ∧
      ∀ line : Line, line.words = mixedWords → ∃ text,
        line.row = padded 0x20 4 (integer line.number) ++ utf8 ": " ++ text ++ [0x0A] ∧
          tokenize 8 text = ⟨mixedWords, none⟩ := by
  have hwords : ∀ word ∈ mixedWords, word.isLegible = true := by decide +kernel
  have hbalanced : Balanced 0 mixedWords := ⟨by decide +kernel, by decide +kernel⟩
  have hlength : ∀ word ∈ mixedWords, word.kind = .text → word.text.length ≤ (8 : Int) := by
    decide +kernel
  exact ⟨⟨hwords, hbalanced, Or.inr hlength⟩,
    tokenize_renderAll 8 hwords hbalanced (Or.inr hlength)⟩

end LineScript
