import LineScript.Proofs.Word.OnePass
import Mathlib.Data.List.TakeWhile

/-!
Capital and small letters. Outside of quoted text a capital may be written for every small letter:
lowering the capitals there changes neither the words of a line nor its failure. Scanning follows
the quotes of a line as lowering does, at the top as well as inside of groups, where a comment may
hold quotes that close no text.
-/

set_option autoImplicit false
set_option relaxedAutoImplicit false

namespace LineScript

open Bytes

/-- Lowering takes the capitals to the small letters and leaves every other byte as it is. -/
theorem lowerByte_alphabet :
    (utf8 "ABCDEFGHIJKLMNOPQRSTUVWXYZ").map lowerByte = utf8 "abcdefghijklmnopqrstuvwxyz" ∧
      ∀ byte, byte ∉ utf8 "ABCDEFGHIJKLMNOPQRSTUVWXYZ" → lowerByte byte = byte :=
  ⟨by decide, forall_byte (by decide +kernel)⟩

/-- The line with its capitals lowered outside of quoted text. -/
def lowerOutside (quoting : Quoting) : Bytes → Bytes
  | [] => []
  | byte :: rest =>
    (if quoting = .outside then lowerByte byte else byte) ::
      lowerOutside (quoting.step byte) rest

theorem lowerOutside_cons {byte : UInt8} (h : byte ≠ 0x22) (rest : Bytes) :
    lowerOutside .outside (byte :: rest) = lowerByte byte :: lowerOutside .outside rest := by
  rw [lowerOutside, Quoting.step, if_pos rfl, if_neg h]

theorem lowerOutside_cons_quoted {quoting : Quoting} (h : quoting ≠ .outside) (byte : UInt8)
    (rest : Bytes) :
    lowerOutside quoting (byte :: rest) = byte :: lowerOutside (quoting.step byte) rest := by
  rw [lowerOutside, if_neg h]

/-! ### Letters -/

/-- All that scanning knows of a letter, be it a capital or small. -/
structure IsLetter (byte : UInt8) : Prop where
  lead : Lead.ofByte byte = .letter
  nameStart : isNameStart byte = true
  nameByte : isNameByte byte = true
  digit : isDigit byte = false
  operator : isOperatorByte byte = false
  continuation : Text.isContinuation byte = false
  plain : isPlain byte = true

theorem classes_of_letter :
    ∀ byte, (isSmall byte || isCapital byte) = true →
      Lead.ofByte byte = .letter ∧ isNameStart byte = true ∧ isNameByte byte = true ∧
        isDigit byte = false ∧ isOperatorByte byte = false ∧ Text.isContinuation byte = false ∧
        isPlain byte = true :=
  forall_byte (by decide +kernel)

theorem isSmall_lowerByte :
    ∀ byte, isCapital byte = true →
      isSmall (lowerByte byte) = true ∧ isCapital (lowerByte byte) = false :=
  forall_byte (by decide +kernel)

theorem isLetter_of_isCapital {byte : UInt8} (h : isCapital byte = true) :
    IsLetter byte ∧ IsLetter (lowerByte byte) := by
  have hletter : ∀ letter, (isSmall letter || isCapital letter) = true → IsLetter letter := by
    intro letter hletter
    obtain ⟨hlead, hstart, hname, hdigit, hoperator, hcontinuation, hplain⟩ :=
      classes_of_letter letter hletter
    exact ⟨hlead, hstart, hname, hdigit, hoperator, hcontinuation, hplain⟩
  refine ⟨hletter byte ?_, hletter (lowerByte byte) ?_⟩
  · rw [h, Bool.or_true]
  · rw [(isSmall_lowerByte byte h).1, Bool.true_or]

/-- What tells no capital from its small letter. -/
def IsCaseless {α : Type} (classify : UInt8 → α) : Prop :=
  ∀ byte, classify (lowerByte byte) = classify byte

/-- What is the same for all letters tells no capital from its small letter. -/
theorem isCaseless_of_letters {α : Type} {classify : UInt8 → α} {value : α}
    (h : ∀ byte, IsLetter byte → classify byte = value) : IsCaseless classify := by
  intro byte
  by_cases hcapital : isCapital byte = true
  · obtain ⟨hletter, hlowered⟩ := isLetter_of_isCapital hcapital
    rw [h _ hlowered, h byte hletter]
  · rw [lowerByte, if_neg hcapital]

theorem isCaseless_lead : IsCaseless Lead.ofByte :=
  isCaseless_of_letters fun _ ↦ IsLetter.lead

theorem isCaseless_isNameStart : IsCaseless isNameStart :=
  isCaseless_of_letters fun _ ↦ IsLetter.nameStart

theorem isCaseless_isContinuation : IsCaseless Text.isContinuation :=
  isCaseless_of_letters fun _ ↦ IsLetter.continuation

theorem isCaseless_beq {mark : UInt8} (h : isNameStart mark = false) : IsCaseless (· == mark) := by
  refine isCaseless_of_letters fun byte hbyte ↦ beq_eq_false_iff_ne.mpr ?_
  rintro rfl
  exact Bool.false_ne_true (h.symm.trans hbyte.nameStart)

theorem lowerByte_lowerByte (byte : UInt8) : lowerByte (lowerByte byte) = lowerByte byte := by
  by_cases hcapital : isCapital byte = true
  · have hsmall : ¬ isCapital (lowerByte byte) = true :=
      Bool.eq_false_iff.mp (isSmall_lowerByte byte hcapital).2
    rw [lowerByte, if_neg hsmall]
  · have hsame : lowerByte byte = byte := if_neg hcapital
    rw [hsame, hsame]

/-- What no letter is stays as it is. -/
theorem lowerByte_of_not_isLetter {byte : UInt8} (h : ¬ IsLetter byte) : lowerByte byte = byte :=
  if_neg fun hcapital ↦ h (isLetter_of_isCapital hcapital).1

theorem lowerOutside_cons_of_not_isLetter {byte : UInt8} (h : ¬ IsLetter byte)
    (hquote : byte ≠ 0x22) (rest : Bytes) :
    lowerOutside .outside (byte :: rest) = byte :: lowerOutside .outside rest := by
  rw [lowerOutside_cons hquote, lowerByte_of_not_isLetter h]

/-! ### Places -/

/-- Quotes and parentheses are no letters. -/
theorem Nesting.step?_lowerByte (depth : Nat) (byte : UInt8) :
    Nesting.step? ⟨depth, .outside⟩ (lowerByte byte) = Nesting.step? ⟨depth, .outside⟩ byte := by
  by_cases hletter : IsLetter byte
  · have hcaseless : IsCaseless isPlain := isCaseless_of_letters fun _ ↦ IsLetter.plain
    have hlowered : isPlain (lowerByte byte) = true := (hcaseless byte).trans hletter.plain
    rw [step?_plain hletter.plain, step?_plain hlowered]
  · rw [lowerByte_of_not_isLetter hletter]

theorem Nesting.quoting_of_step? {nesting next : Nesting} {byte : UInt8}
    (h : nesting.step? byte = some next) : next.quoting = nesting.quoting.step byte := by
  rw [step?] at h
  split_ifs at h
  · cases h
    rfl
  · split at h
    · cases h
    · cases h
      rfl
  · cases h
    rfl

/-! ### Words -/

theorem any_head?_lowerOutside {property : UInt8 → Bool} (h : IsCaseless property)
    (line : Bytes) : (lowerOutside .outside line).head?.any property = line.head?.any property := by
  cases line with
  | nil => rfl
  | cons byte rest => exact h byte

/-- Bytes that share a property with their small letters are lowered together. -/
theorem span_lowerOutside {property : UInt8 → Bool} (h : IsCaseless property)
    (hquote : property 0x22 = false) (line : Bytes) :
    (lowerOutside .outside line).takeWhile property = (line.takeWhile property).map lowerByte ∧
      (lowerOutside .outside line).dropWhile property =
        lowerOutside .outside (line.dropWhile property) := by
  induction line with
  | nil => exact ⟨rfl, rfl⟩
  | cons byte rest ih =>
    by_cases hbyte : property byte = true
    · have hne : byte ≠ 0x22 := by
        rintro rfl
        exact Bool.false_ne_true (hquote.symm.trans hbyte)
      have hlower : property (lowerByte byte) = true := (h byte).trans hbyte
      rw [lowerOutside_cons hne, List.takeWhile_cons_of_pos hlower,
        List.takeWhile_cons_of_pos hbyte, List.dropWhile_cons_of_pos hlower,
        List.dropWhile_cons_of_pos hbyte]
      exact ⟨congrArg (lowerByte byte :: ·) ih.1, ih.2⟩
    · have hlower : ¬ property (lowerByte byte) = true := by rwa [h byte]
      have hcons : lowerOutside .outside (byte :: rest) =
          lowerByte byte :: lowerOutside (Quoting.step .outside byte) rest := rfl
      rw [hcons, List.takeWhile_cons_of_neg hlower, List.takeWhile_cons_of_neg hbyte,
        List.dropWhile_cons_of_neg hlower, List.dropWhile_cons_of_neg hbyte]
      exact ⟨rfl, rfl⟩

theorem nameWord_lowerOutside (kind : Kind) (line : Bytes) :
    nameWord kind (lowerOutside .outside line) =
      ((nameWord kind line).1, lowerOutside .outside (nameWord kind line).2) := by
  obtain ⟨htake, hdrop⟩ :=
    span_lowerOutside (isCaseless_of_letters fun _ ↦ IsLetter.nameByte) rfl line
  have hlower : lower ((line.takeWhile isNameByte).map lowerByte) =
      lower (line.takeWhile isNameByte) := by
    rw [lower, lower, List.map_map]
    exact List.map_congr_left fun byte _ ↦ lowerByte_lowerByte byte
  rw [nameWord, htake, hdrop, hlower]
  rfl

/-- Digits are lowered to themselves. -/
theorem digits_lowerOutside (line : Bytes) :
    (lowerOutside .outside line).takeWhile isDigit = line.takeWhile isDigit ∧
      (lowerOutside .outside line).dropWhile isDigit =
        lowerOutside .outside (line.dropWhile isDigit) := by
  obtain ⟨htake, hdrop⟩ :=
    span_lowerOutside (isCaseless_of_letters fun _ ↦ IsLetter.digit) rfl line
  have hsame : (line.takeWhile isDigit).map lowerByte = line.takeWhile isDigit := by
    refine (List.map_congr_left fun byte hbyte ↦ ?_).trans (List.map_id _)
    refine lowerByte_of_not_isLetter fun hletter ↦ ?_
    exact Bool.false_ne_true (hletter.digit.symm.trans (List.mem_takeWhile_imp hbyte))
  exact ⟨htake.trans hsame, hdrop⟩

theorem numeral_lowerOutside (line : Bytes) :
    numeral (lowerOutside .outside line) =
      ((numeral line).1, lowerOutside .outside (numeral line).2) := by
  obtain ⟨htake, hdrop⟩ := digits_lowerOutside line
  by_cases hpoint : 0x2E ∈ (line.dropWhile isDigit).head?
  · obtain ⟨rest, hrest⟩ := List.head?_eq_some_iff.mp hpoint
    obtain ⟨htake', hdrop'⟩ := digits_lowerOutside rest
    have hlowered : lowerOutside .outside (0x2E :: rest) =
        0x2E :: lowerOutside .outside rest := rfl
    rw [hrest, hlowered] at hdrop
    rw [numeral_of_point hdrop, numeral_of_point hrest, htake, htake', hdrop']
  · have hnone : 0x2E ∉ ((lowerOutside .outside line).dropWhile isDigit).head? := by
      rw [hdrop]
      cases hrest : line.dropWhile isDigit with
      | nil => exact Option.not_mem_none _
      | cons first rest =>
        have hsame : (lowerByte first == 0x2E) = (first == 0x2E) :=
          isCaseless_beq rfl first
        rw [hrest] at hpoint
        intro hmem
        have hfirst : lowerByte first = 0x2E := Option.some.inj hmem
        rw [hfirst] at hsame
        exact hpoint (congrArg some (eq_of_beq hsame.symm))
    rw [numeral_of_no_point hnone, numeral_of_no_point hpoint, htake, hdrop]

theorem operatorWord_lowerOutside (byte : UInt8) (rest : Bytes) :
    operatorWord byte (lowerOutside .outside rest) =
      ((operatorWord byte rest).1, lowerOutside .outside (operatorWord byte rest).2) := by
  cases rest with
  | nil => rfl
  | cons second rest =>
    by_cases hoperator : isOperatorByte second = true
    · have hletter : ¬ IsLetter second := fun hletter ↦
        Bool.false_ne_true (hletter.operator.symm.trans hoperator)
      have hquote : second ≠ 0x22 := by
        rintro rfl
        exact absurd hoperator (by decide)
      rw [lowerOutside_cons_of_not_isLetter hletter hquote, operatorWord, operatorWord]
      split_ifs
      · rfl
      · rfl
    · have hlower : ¬ isOperatorByte (lowerByte second) = true := by
        rwa [isCaseless_of_letters (fun _ ↦ IsLetter.operator) second]
      rw [operatorWord_of_not_isOperatorByte hoperator]
      exact operatorWord_of_not_isOperatorByte hlower _

/-- Quoted text is left as it is, and ends at the same quote. -/
theorem quotedText_lowerOutside (line : Bytes) :
    quotedText (lowerOutside .inside line) =
      ((quotedText line).1, lowerOutside .outside (quotedText line).2) := by
  induction line using quotedText_induction with
  | nil => rfl
  | quote rest => rfl
  | cutShort => rfl
  | escape byte rest ih =>
    have hescape : lowerOutside .inside (0x5C :: byte :: rest) =
        0x5C :: byte :: lowerOutside .inside rest := rfl
    rw [hescape, quotedText_escape, quotedText_escape, ih]
  | other byte rest hquote hbackslash ih =>
    have hstep : Quoting.step .inside byte = .inside := by
      rw [Quoting.step, if_neg hbackslash, if_neg hquote]
    rw [lowerOutside_cons_quoted (by decide), hstep, quotedText_cons hquote hbackslash,
      quotedText_cons hquote hbackslash, ih]

/-- A group ends at the same parenthesis, which stands outside of quoted text. -/
theorem enclosed_lowerOutside (nesting : Nesting) (line : Bytes) :
    enclosed nesting (lowerOutside nesting.quoting line) =
      (lowerOutside nesting.quoting (enclosed nesting line).1,
        lowerOutside .outside (enclosed nesting line).2) := by
  induction line generalizing nesting with
  | nil => rfl
  | cons byte rest ih =>
    obtain ⟨depth, quoting⟩ := nesting
    have hlowered : Nesting.step? ⟨depth, quoting⟩
        (if quoting = .outside then lowerByte byte else byte) =
          Nesting.step? ⟨depth, quoting⟩ byte := by
      split_ifs with houtside
      · subst houtside
        exact Nesting.step?_lowerByte depth byte
      · rfl
    rw [lowerOutside]
    cases hstep : Nesting.step? ⟨depth, quoting⟩ byte with
    | none =>
      obtain ⟨hnesting, rfl⟩ := (Nesting.step?_eq_none_iff _ byte).mp hstep
      cases hnesting
      rfl
    | some next =>
      have hquoting : next.quoting = quoting.step byte := Nesting.quoting_of_step? hstep
      rw [enclosed_cons (hlowered.trans hstep), enclosed_cons hstep, ← hquoting, ih next,
        lowerOutside, hquoting]

/-- The bytes that continue a character are neither letters nor quotes. -/
theorem lowerOutside_append {run : Bytes} (h : ∀ byte ∈ run, Text.isContinuation byte = true)
    (tail : Bytes) : lowerOutside .outside (run ++ tail) = run ++ lowerOutside .outside tail := by
  induction run with
  | nil => rfl
  | cons byte run ih =>
    rw [List.forall_mem_cons] at h
    have hletter : ¬ IsLetter byte := fun hletter ↦
      Bool.false_ne_true (hletter.continuation.symm.trans h.1)
    have hquote : byte ≠ 0x22 := by
      rintro rfl
      exact absurd h.1 (by decide)
    rw [List.cons_append, lowerOutside_cons_of_not_isLetter hletter hquote, ih h.2,
      List.cons_append]

/-- What a character leaves of bytes that continue one is made of such bytes. -/
theorem isContinuation_of_first? {byte : UInt8} {run : Bytes}
    (h : ∀ other ∈ run, Text.isContinuation other = true) {found : Char × Bytes}
    (hfound : Text.first? (byte :: run) = some found) :
    ∀ other ∈ found.2, Text.isContinuation other = true := by
  obtain ⟨taken, rfl, -⟩ := exists_plain_of_first? hfound
  exact (List.forall_mem_append.mp h).2

/-- A character is found in the same bytes, and what it leaves is lowered. -/
theorem first?_lowerOutside (byte : UInt8) (rest : Bytes) :
    Text.first? (byte :: lowerOutside .outside rest) =
      (Text.first? (byte :: rest)).map fun found ↦ (found.1, lowerOutside .outside found.2) := by
  have hrun : ∀ other ∈ rest.takeWhile Text.isContinuation, Text.isContinuation other = true :=
    fun other ↦ List.mem_takeWhile_imp
  have hsplit : rest.takeWhile Text.isContinuation ++ rest.dropWhile Text.isContinuation = rest :=
    List.takeWhile_append_dropWhile
  have hstop := List.head?_dropWhile_not Text.isContinuation rest
  generalize rest.takeWhile Text.isContinuation = run at *
  generalize rest.dropWhile Text.isContinuation = tail at *
  subst hsplit
  -- What continues the character ends at the end of the line or before a byte that ends it.
  cases tail with
  | nil =>
    rw [lowerOutside_append hrun, List.append_nil]
    cases hfound : Text.first? (byte :: run) with
    | none => rw [lowerOutside, List.append_nil, hfound, Option.map_none]
    | some found =>
      have hleft := lowerOutside_append (isContinuation_of_first? hrun hfound) []
      rw [List.append_nil] at hleft
      rw [lowerOutside, List.append_nil, hfound, Option.map_some, hleft, lowerOutside,
        List.append_nil]
  | cons separator more =>
    have hlowered : Text.isContinuation (lowerByte separator) = false :=
      (isCaseless_isContinuation separator).trans hstop
    rw [lowerOutside_append hrun, lowerOutside, if_pos rfl, ← List.cons_append, ← List.cons_append,
      Text.first?_append hlowered, Text.first?_append hstop]
    cases hfound : Text.first? (byte :: run) with
    | none => rfl
    | some found =>
      have hleft := lowerOutside_append (isContinuation_of_first? hrun hfound) (separator :: more)
      rw [Option.map_some, Option.map_some, Option.map_some, hleft]
      rfl

/-! ### Lines -/

theorem isSkipped_lowerOutside (byte : UInt8) (rest : Bytes) :
    isSkipped (lowerByte byte) (lowerOutside .outside rest) = isSkipped byte rest := by
  rw [isSkipped, isSkipped, isCaseless_lead, any_head?_lowerOutside isCaseless_isNameStart]

theorem startsComment_lowerOutside (byte : UInt8) (rest : Bytes) :
    startsComment (lowerByte byte) (lowerOutside .outside rest) = startsComment byte rest := by
  have hsemicolon : (lowerByte byte == 0x3B) = (byte == 0x3B) :=
    isCaseless_beq rfl byte
  have hslash : IsCaseless (· == 0x2F) := isCaseless_beq rfl
  have hfirst : (lowerByte byte == 0x2F) = (byte == 0x2F) := hslash byte
  rw [startsComment, startsComment, any_head?_lowerOutside hslash, hsemicolon, hfirst]

/-- The first word of a line is that of the lowered line, and what is left of it is lowered. -/
theorem scan_lowerOutside {byte : UInt8} {rest : Bytes} (hskipped : isSkipped byte rest = false)
    (hcomment : startsComment byte rest = false) (hopening : byte ≠ 0x28) :
    scan (lowerOutside .outside (byte :: rest)) =
      ((scan (byte :: rest)).1, lowerOutside .outside (scan (byte :: rest)).2) := by
  by_cases hquote : byte = 0x22
  · subst hquote
    have hlowered : lowerOutside .outside (0x22 :: rest) = 0x22 :: lowerOutside .inside rest := rfl
    rw [hlowered, scan_quote, scan_quote, quotedText_lowerOutside]
  obtain ⟨hleadQuote, hleadOpening, hleadSemicolon⟩ := byte_eq_of_lead byte
  have hsame := isCaseless_lead byte
  have hstart := any_head?_lowerOutside isCaseless_isNameStart rest
  have hcons := lowerOutside_cons hquote rest
  cases hlead : Lead.ofByte byte with
  | space => simp [isSkipped, hlead] at hskipped
  | tab => simp only [hcons, scan, hsame, hlead]
  | comma => simp only [hcons, scan, hsame, hlead]
  | trail => simp only [hcons, scan, hsame, hlead]
  | cast => simp only [hcons, scan, hsame, hlead]
  | dollar =>
    simp only [isSkipped, hlead, Bool.not_eq_false'] at hskipped
    simp only [hcons, scan, hsame, hlead, hstart, if_pos hskipped]
    exact nameWord_lowerOutside .varname rest
  | atSign =>
    simp only [isSkipped, hlead, Bool.not_eq_false'] at hskipped
    simp only [hcons, scan, hsame, hlead, hstart, if_pos hskipped]
    exact nameWord_lowerOutside .funcname rest
  | quote => exact absurd (hleadQuote hlead) hquote
  | opening => exact absurd (hleadOpening hlead) hopening
  | semicolon => simp [startsComment, hleadSemicolon hlead] at hcomment
  | operator =>
    have hother : ¬ IsLetter byte := fun hletter ↦ by cases hlead.symm.trans hletter.lead
    simp only [hcons, scan, hsame, hlead]
    rw [lowerByte_of_not_isLetter hother]
    exact operatorWord_lowerOutside byte rest
  | digit =>
    have hnumeral := numeral_lowerOutside (byte :: rest)
    rw [hcons] at hnumeral
    simp only [hcons, scan, hsame, hlead, hnumeral]
  | letter =>
    have hword := nameWord_lowerOutside .name (byte :: rest)
    rw [hcons] at hword
    simp only [hcons, scan, hsame, hlead]
    exact hword
  | other =>
    have hother : ¬ IsLetter byte := fun hletter ↦ by cases hlead.symm.trans hletter.lead
    have hfirst := first?_lowerOutside byte rest
    simp only [hcons, scan, hsame, hlead]
    rw [lowerByte_of_not_isLetter hother, hfirst]
    cases hfound : Text.first? (byte :: rest) with
    | none => rfl
    | some found => rfl

/-- Lowering the capitals outside of quoted text changes neither the words of a line nor its
failure. -/
theorem tokenize_lowerOutside (limit : Int) (line : Bytes) :
    tokenize limit (lowerOutside .outside line) = tokenize limit line := by
  induction line using line_induction with
  | nil => rfl
  | skipped byte rest hskipped ih =>
    obtain ⟨hquote, -, -⟩ := (isPlain_iff byte).mp (isPlain_of_isSkipped hskipped)
    have hlowered := (isSkipped_lowerOutside byte rest).trans hskipped
    rw [lowerOutside_cons hquote, tokenize_of_isSkipped hlowered, tokenize_of_isSkipped hskipped,
      ih]
  | comment byte rest hcomment =>
    obtain ⟨hquote, -, -⟩ := (isPlain_iff byte).mp (isPlain_of_startsComment hcomment)
    have hlowered := (startsComment_lowerOutside byte rest).trans hcomment
    rw [lowerOutside_cons hquote, tokenize_of_startsComment hlowered,
      tokenize_of_startsComment hcomment]
  | group rest hinner hafter =>
    have hlowered : lowerOutside .outside (0x28 :: rest) = 0x28 :: lowerOutside .outside rest := rfl
    have hcut : cut (lowerOutside .outside rest) =
        (lowerOutside .outside (cut rest).1, lowerOutside .outside (cut rest).2) :=
      enclosed_lowerOutside ⟨0, .outside⟩ rest
    rw [hlowered, tokenize_opening, tokenize_opening, hcut, hinner, hafter]
  | word byte rest hskipped hcomment hopening ih =>
    obtain ⟨hempty, hgroup⟩ :=
      kind_scan (Bool.eq_false_iff.mp hskipped) (Bool.eq_false_iff.mp hcomment) hopening
    have hscan := scan_lowerOutside hskipped hcomment hopening
    rw [tokenize_of_scan hscan hempty hgroup, tokenize_of_scan rfl hempty hgroup, ih]

/-- Quotes in a comment hide a parenthesis and the letters between them. -/
example :
    lowerOutside .outside (utf8 "@F(A ; \"B)\" C) & \"\\\"D\" AND E") =
      utf8 "@f(a ; \"B)\" c) & \"\\\"D\" and e" := by
  decide +kernel

end LineScript
