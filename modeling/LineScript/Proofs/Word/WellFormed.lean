import LineScript.Proofs.Bytes.Numeral
import LineScript.Proofs.Word.Enclosed
import Mathlib.Data.List.Infix
import Mathlib.Data.List.TakeWhile

/-!
Well-formed words and balanced parentheses. A name is written in small letters, digits and
underscores, a number in digits with at most one point among them, an operator is one of the table,
and the other marks have one spelling each. Each of these spellings is read to its end, and not
further, where a space or nothing follows it.
-/

set_option autoImplicit false
set_option relaxedAutoImplicit false

namespace LineScript

open Bytes

/-- A small letter or an underscore. -/
def isIdentifierStart (byte : UInt8) : Bool :=
  isSmall byte || byte == 0x5F

/-- The spelling of a name after its capitals are lowered. -/
def isIdentifier (text : Bytes) : Bool :=
  text.head?.any isIdentifierStart && text.all fun byte ↦ isIdentifierStart byte || isDigit byte

/-- The spelling of a number: a digit, then digits with at most one point among them. -/
def isNumeral (text : Bytes) : Bool :=
  text.head?.any isDigit && text.all (fun byte ↦ isDigit byte || byte == 0x2E) &&
    text.count 0x2E ≤ 1

/-- Whether a word has a kind of finished lines and a spelling of that kind. -/
def Word.isWellFormed (word : Word) : Bool :=
  match word.kind with
  | .name | .varname | .funcname => isIdentifier word.text
  | .numeric => isNumeral word.text
  | .operator => word.operatorClass?.isSome
  | .text => true
  | .tab => word == .tab
  | .opening => word == .opening
  | .closing => word == .closing
  | .comma => word == .comma
  | .trail => word == .trail
  | .cast => word == .cast
  | .empty | .invalid | .group | .reserved _ => false

namespace Word

variable {word : Word}

theorem kind_of_isWellFormed (h : word.isWellFormed = true) :
    word.kind ≠ .empty ∧ word.kind ≠ .group ∧ word.kind ≠ .invalid := by
  refine ⟨?_, ?_, ?_⟩
  all_goals
    intro hkind
    simp [isWellFormed, hkind] at h

theorem eq_opening (h : word.isWellFormed = true) (hkind : word.kind = .opening) :
    word = .opening := by
  simpa [isWellFormed, hkind] using h

theorem eq_closing (h : word.isWellFormed = true) (hkind : word.kind = .closing) :
    word = .closing := by
  simpa [isWellFormed, hkind] using h

/-- Nothing of a well-formed word is refused but the length of a text. -/
theorem refusal?_eq_none (h : word.isWellFormed = true) {limit : Int}
    (hlimit : word.kind = .text → exceeds limit word.text = false) :
    word.refusal? limit = none := by
  obtain ⟨kind, text⟩ := word
  cases kind with
  | invalid => cases h
  | text => exact if_neg (Bool.eq_false_iff.mp (hlimit rfl))
  | operator =>
    obtain ⟨group, hgroup⟩ := Option.isSome_iff_exists.mp h
    simp [refusal?, hgroup]
  | _ => rfl

end Word

/-! ### Balance -/

/-- The number of parentheses that words open. -/
def openings (words : List Word) : Nat :=
  words.countP (·.kind == .opening)

/-- The number of parentheses that words close. -/
def closings (words : List Word) : Nat :=
  words.countP (·.kind == .closing)

/-- After `depth` open parentheses, the words close none that is not open, and all in the end. -/
structure Balanced (depth : Nat) (words : List Word) : Prop where
  beginnings : ∀ beginning ∈ words.inits, closings beginning ≤ depth + openings beginning
  total : closings words = depth + openings words

namespace Balanced

variable {depth next : Nat} {word : Word} {words : List Word}

theorem openings_cons (word : Word) (words : List Word) :
    openings (word :: words) = openings [word] + openings words := by
  rw [← List.singleton_append, openings, List.countP_append]
  rfl

theorem closings_cons (word : Word) (words : List Word) :
    closings (word :: words) = closings [word] + closings words := by
  rw [← List.singleton_append, closings, List.countP_append]
  rfl

theorem depth_eq_zero (h : Balanced depth []) : depth = 0 :=
  h.total.symm

/-- The words after the first are balanced after what that leaves open. -/
theorem of_cons (h : Balanced depth (word :: words))
    (hnext : next + closings [word] = depth + openings [word]) : Balanced next words where
  beginnings := by
    intro beginning hbeginning
    have hmem : word :: beginning ∈ (word :: words).inits := by
      rw [List.inits_cons]
      exact List.mem_cons_of_mem _ (List.mem_map_of_mem hbeginning)
    have hle := h.beginnings _ hmem
    rw [closings_cons, openings_cons] at hle
    omega
  total := by
    have htotal := h.total
    rw [closings_cons, openings_cons] at htotal
    omega

theorem of_opening (h : Balanced depth (word :: words)) (hkind : word.kind = .opening) :
    Balanced (depth + 1) words :=
  h.of_cons (by simp [closings, openings, hkind])

/-- A closing parenthesis closes one that is open. -/
theorem of_closing (h : Balanced depth (word :: words)) (hkind : word.kind = .closing) :
    ∃ outer, depth = outer + 1 ∧ Balanced outer words := by
  have hmem : [word] ∈ (word :: words).inits := by simp
  have hopen : 1 ≤ depth := by simpa [closings, openings, hkind] using h.beginnings _ hmem
  obtain ⟨outer, rfl⟩ := Nat.exists_eq_add_of_le' hopen
  exact ⟨outer, rfl, h.of_cons (by simp [closings, openings, hkind])⟩

theorem of_other (h : Balanced depth (word :: words)) (hopening : word.kind ≠ .opening)
    (hclosing : word.kind ≠ .closing) : Balanced depth words :=
  h.of_cons (by simp [closings, openings, hopening, hclosing])

end Balanced

/-! ### Spellings -/

/-- What may follow a word: a space or the end of the line. -/
def EndsWord (tail : Bytes) : Prop :=
  ∀ byte ∈ tail.head?, byte = 0x20

theorem EndsWord.nil : EndsWord [] := by
  rintro byte ⟨⟩

theorem EndsWord.space (rest : Bytes) : EndsWord (0x20 :: rest) := by
  rintro byte ⟨⟩
  rfl

theorem EndsWord.head?_eq_false {tail : Bytes} (h : EndsWord tail) (property : UInt8 → Bool)
    (hspace : property 0x20 = false) : ∀ byte ∈ tail.head?, property byte = false := by
  intro byte hbyte
  rw [h byte hbyte]
  exact hspace

theorem exists_cons_of_isIdentifier {text : Bytes} (h : isIdentifier text = true) :
    ∃ byte rest, text = byte :: rest ∧ isIdentifierStart byte = true := by
  cases text with
  | nil => cases h
  | cons byte rest =>
    rw [isIdentifier, Bool.and_eq_true] at h
    exact ⟨byte, rest, rfl, h.1⟩

/-- A byte of a lowered name may occur in a name and is no capital. -/
theorem isNameByte_of_isIdentifier {text : Bytes} (h : isIdentifier text = true) {byte : UInt8}
    (hbyte : byte ∈ text) : isNameByte byte = true ∧ isCapital byte = false := by
  rw [isIdentifier, Bool.and_eq_true, List.all_eq_true] at h
  have hpart := h.2 byte hbyte
  simp only [isIdentifierStart, isNameByte, isNameStart, isSmall, isCapital, isDigit,
    UInt8.le_iff_toNat_le, ← UInt8.toNat_inj, Bool.or_eq_true, Bool.and_eq_true,
    Bool.and_eq_false_iff, beq_iff_eq, decide_eq_true_eq, decide_eq_false_iff_not,
    UInt8.reduceToNat] at hpart ⊢
  omega

theorem nameWord_append {text tail : Bytes} (h : isIdentifier text = true) (htail : EndsWord tail)
    (kind : Kind) : nameWord kind (text ++ tail) = (⟨kind, text⟩, tail) := by
  obtain ⟨htake, hdrop⟩ := span_append (fun byte hbyte ↦ (isNameByte_of_isIdentifier h hbyte).1)
    (htail.head?_eq_false isNameByte (by decide))
  have hlower : lower text = text := by
    refine (List.map_congr_left fun byte hbyte ↦ ?_).trans (List.map_id text)
    rw [lowerByte, (isNameByte_of_isIdentifier h hbyte).2]
    rfl
  rw [nameWord, htake, hdrop, hlower]

theorem exists_cons_of_isNumeral {text : Bytes} (h : isNumeral text = true) :
    ∃ byte rest, text = byte :: rest ∧ isDigit byte = true := by
  cases text with
  | nil => cases h
  | cons byte rest =>
    rw [isNumeral, Bool.and_eq_true, Bool.and_eq_true] at h
    exact ⟨byte, rest, rfl, h.1.1⟩

/-- A numeral is made of digits, or of digits before and after one point. -/
theorem exists_parts_of_isNumeral {text : Bytes} (h : isNumeral text = true) :
    ∃ whole, (∀ byte ∈ whole, isDigit byte = true) ∧ (text = whole ∨
      ∃ fraction, (∀ byte ∈ fraction, isDigit byte = true) ∧ text = whole ++ 0x2E :: fraction) := by
  rw [isNumeral, Bool.and_eq_true, Bool.and_eq_true, List.all_eq_true, decide_eq_true_eq] at h
  obtain ⟨⟨-, hparts⟩, hcount⟩ := h
  have hsplit : text.takeWhile isDigit ++ text.dropWhile isDigit = text :=
    List.takeWhile_append_dropWhile
  refine ⟨text.takeWhile isDigit, fun byte hbyte ↦ List.mem_takeWhile_imp hbyte, ?_⟩
  cases hrest : text.dropWhile isDigit with
  | nil =>
    rw [hrest, List.append_nil] at hsplit
    exact Or.inl hsplit.symm
  | cons point fraction =>
    rw [hrest] at hsplit
    have hhead : isDigit point = false := by
      have hnot := List.head?_dropWhile_not isDigit text
      rw [hrest] at hnot
      exact hnot
    rw [← hsplit, List.forall_mem_append, List.forall_mem_cons] at hparts
    obtain ⟨-, hpoint, hfraction⟩ := hparts
    obtain rfl : point = 0x2E := by simpa [hhead] using hpoint
    have hnone : 0x2E ∉ fraction := by
      rw [← hsplit, List.count_append, List.count_cons_self] at hcount
      rw [← List.count_eq_zero]
      omega
    refine Or.inr ⟨fraction, fun byte hbyte ↦ ?_, hsplit.symm⟩
    have hne : byte ≠ 0x2E := fun heq ↦ hnone (heq ▸ hbyte)
    simpa [hne] using hfraction byte hbyte

theorem count_point_digits {digits : Bytes} (h : ∀ byte ∈ digits, isDigit byte = true) :
    digits.count 0x2E = 0 := by
  rw [List.count_eq_zero]
  intro hmem
  exact absurd (h _ hmem) (by decide)

/-- Digits are a numeral, and so are digits with a point after some of them. -/
theorem isNumeral_of_parts {whole : Bytes} (hne : whole ≠ [])
    (hwhole : ∀ byte ∈ whole, isDigit byte = true) :
    isNumeral whole = true ∧ ∀ fraction : Bytes, (∀ byte ∈ fraction, isDigit byte = true) →
      isNumeral (whole ++ 0x2E :: fraction) = true := by
  have hparts : ∀ digits : Bytes, (∀ byte ∈ digits, isDigit byte = true) →
      ∀ byte ∈ digits, (isDigit byte || byte == 0x2E) = true := by
    intro digits hdigits byte hbyte
    rw [hdigits byte hbyte, Bool.true_or]
  obtain ⟨digit, rest, rfl⟩ := List.exists_cons_of_ne_nil hne
  have hdigit : isDigit digit = true := hwhole digit List.mem_cons_self
  simp only [isNumeral, Bool.and_eq_true, List.all_eq_true, decide_eq_true_eq]
  refine ⟨⟨⟨hdigit, hparts _ hwhole⟩, ?_⟩, fun fraction hfraction ↦ ⟨⟨hdigit, ?_⟩, ?_⟩⟩
  · rw [count_point_digits hwhole]
    exact Nat.zero_le 1
  · exact List.forall_mem_append.mpr
      ⟨hparts _ hwhole, List.forall_mem_cons.mpr ⟨rfl, hparts _ hfraction⟩⟩
  · rw [List.count_append, List.count_cons_self, count_point_digits hwhole,
      count_point_digits hfraction]

theorem numeral_append {text tail : Bytes} (h : isNumeral text = true) (htail : EndsWord tail) :
    numeral (text ++ tail) = (text, tail) := by
  have hdigit := htail.head?_eq_false isDigit (by decide)
  obtain ⟨whole, hwhole, rfl | ⟨fraction, hfraction, rfl⟩⟩ := exists_parts_of_isNumeral h
  · obtain ⟨htake, hdrop⟩ := span_append hwhole hdigit
    have hpoint : 0x2E ∉ tail.head? := by
      intro hmem
      exact absurd (htail _ hmem) (by decide)
    rw [numeral_of_no_point (by rw [hdrop]; exact hpoint), htake, hdrop]
  · have hpoint : ∀ byte ∈ (0x2E :: (fraction ++ tail)).head?, isDigit byte = false := by
      rintro byte ⟨⟩
      rfl
    obtain ⟨htake, hdrop⟩ := span_append hwhole hpoint
    obtain ⟨htakeRest, hdropRest⟩ := span_append hfraction hdigit
    rw [List.append_assoc, List.cons_append, numeral_of_point hdrop, htake, htakeRest, hdropRest]

end LineScript
