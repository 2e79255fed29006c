import LineScript.Proofs.Word.Rendering

/-!
What tokenizing gives. Whatever the bytes of a line are, each word that scanning takes off it and
that is not refused is well-formed. So all words of a line are well-formed, and so are those before
a failure. The parentheses among them are balanced, since a group is put between a pair of them;
only a failure inside of groups leaves these groups open.
-/

set_option autoImplicit false
set_option relaxedAutoImplicit false

namespace LineScript

open Bytes

/-- A well-formed word whose text, if it is one, keeps to the limit. -/
def Word.IsAdmissible (limit : Int) (word : Word) : Prop :=
  word.isWellFormed = true ∧ (word.kind = .text → limit ≤ 0 ∨ word.text.length ≤ limit)

/-! ### Spellings that scanning takes -/

theorem isIdentifierStart_lowerByte :
    ∀ byte, isNameStart byte = true → isIdentifierStart (lowerByte byte) = true :=
  forall_byte (by decide +kernel)

theorem isIdentifierByte_lowerByte :
    ∀ byte, isNameByte byte = true →
      (isIdentifierStart (lowerByte byte) || isDigit (lowerByte byte)) = true :=
  forall_byte (by decide +kernel)

theorem isNameStart_of_lead {byte : UInt8} (h : Lead.ofByte byte = .letter) :
    isNameStart byte = true := by
  unfold Lead.ofByte at h
  repeat' split at h
  all_goals first | assumption | cases h

/-- A name that starts as names do is an identifier once its capitals are lowered. -/
theorem isIdentifier_nameWord {line : Bytes} (h : line.head?.any isNameStart = true)
    (kind : Kind) : isIdentifier (nameWord kind line).1.text = true := by
  cases line with
  | nil => cases h
  | cons byte rest =>
    have hstart : isNameStart byte = true := h
    have hbyte : isNameByte byte = true := by rw [isNameByte, hstart, Bool.true_or]
    rw [nameWord, lower, List.takeWhile_cons_of_pos hbyte, isIdentifier, Bool.and_eq_true]
    refine ⟨isIdentifierStart_lowerByte byte hstart, ?_⟩
    rw [List.all_map, List.all_eq_true]
    intro part hpart
    rcases List.mem_cons.mp hpart with rfl | hpart
    · exact isIdentifierByte_lowerByte _ hbyte
    · exact isIdentifierByte_lowerByte part (List.mem_takeWhile_imp hpart)

/-- What is read as a number from a digit on is a digit with digits and at most one point. -/
theorem isNumeral_numeral {byte : UInt8} (h : isDigit byte = true) (rest : Bytes) :
    isNumeral (numeral (byte :: rest)).1 = true := by
  have hne : (byte :: rest).takeWhile isDigit ≠ [] := by
    rw [List.takeWhile_cons_of_pos h]
    exact List.cons_ne_nil _ _
  obtain ⟨hplain, hpointed⟩ := isNumeral_of_parts hne fun _ ↦ List.mem_takeWhile_imp
  by_cases hpoint : 0x2E ∈ ((byte :: rest).dropWhile isDigit).head?
  · obtain ⟨after, hafter⟩ := List.head?_eq_some_iff.mp hpoint
    rw [numeral_of_point hafter]
    exact hpointed _ fun _ ↦ List.mem_takeWhile_imp
  · rw [numeral_of_no_point hpoint]
    exact hplain

theorem kind_operatorWord_cases (byte : UInt8) (rest : Bytes) :
    (operatorWord byte rest).1 = .empty ∨ (operatorWord byte rest).1.kind = .operator := by
  cases rest with
  | nil => exact Or.inr rfl
  | cons second rest =>
    rw [operatorWord]
    split_ifs
    · exact Or.inl rfl
    · exact Or.inr rfl
    · exact Or.inr rfl

/-- Scanning takes well-formed words off a line, apart from its end, groups, characters that start
no word, and operators that need not be in the table. -/
theorem scan_cases (line : Bytes) :
    (scan line).1.isWellFormed = true ∨
      (scan line).1.kind ∈ [Kind.empty, .group, .invalid, .operator] := by
  fun_induction scan line with
  | case1 => exact Or.inr (by simp [Word.empty])
  | case2 byte rest hlead ih | case8 byte rest hlead hname ih | case10 byte rest hlead hname ih =>
    exact ih
  | case3 | case4 | case5 | case6 | case11 => exact Or.inl rfl
  | case7 byte rest hlead hname => exact Or.inl (isIdentifier_nameWord hname .varname)
  | case9 byte rest hlead hname => exact Or.inl (isIdentifier_nameWord hname .funcname)
  | case12 | case13 => exact Or.inr (by simp [Word.empty])
  | case14 byte rest hlead =>
    refine Or.inr ?_
    rcases kind_operatorWord_cases byte rest with hword | hkind
    · simp [hword, Word.empty]
    · simp [hkind]
  | case15 byte rest hlead digits after hread =>
    have hnumeral := isNumeral_numeral (isDigit_of_lead hlead) rest
    rw [hread] at hnumeral
    exact Or.inl hnumeral
  | case16 byte rest hlead =>
    have hstart : (byte :: rest).head?.any isNameStart = true := isNameStart_of_lead hlead
    exact Or.inl (isIdentifier_nameWord hstart .name)
  | case17 | case18 => exact Or.inr (by simp)

/-- What scanning takes off a line is admissible if it is a word and is not refused. -/
theorem isAdmissible_scan {limit : Int} {line : Bytes} (hempty : (scan line).1.kind ≠ .empty)
    (hgroup : (scan line).1.kind ≠ .group) (h : (scan line).1.refusal? limit = none) :
    (scan line).1.IsAdmissible limit := by
  have hcases := scan_cases line
  generalize (scan line).1 = word at *
  obtain ⟨kind, text⟩ := word
  constructor
  · rcases hcases with hform | hkind
    · exact hform
    · cases kind with
      | empty => exact absurd rfl hempty
      | group => exact absurd rfl hgroup
      | invalid => cases h
      | operator =>
        rw [Word.refusal?] at h
        simpa [Word.isWellFormed, Option.isSome_iff_ne_none] using h
      | _ => simp at hkind
  · rintro rfl
    rw [← exceeds_eq_false_iff]
    simpa [Word.refusal?] using h

/-! ### Parentheses -/

/-- After `depth` open parentheses, the words close none that is not open, and leave `rest` open. -/
structure Leaves (depth rest : Nat) (words : List Word) : Prop where
  beginnings : ∀ beginning ∈ words.inits, closings beginning ≤ depth + openings beginning
  total : rest + closings words = depth + openings words

namespace Leaves

variable {depth middle rest : Nat} {words more : List Word}

theorem balanced (h : Leaves depth 0 words) : Balanced depth words :=
  ⟨h.beginnings, (Nat.zero_add _).symm.trans h.total⟩

theorem nil (depth : Nat) : Leaves depth depth [] :=
  ⟨fun _ hbeginning ↦ by simp_all [closings], rfl⟩

theorem append (h : Leaves depth middle words) (hmore : Leaves middle rest more) :
    Leaves depth rest (words ++ more) where
  beginnings := by
    intro beginning hbeginning
    rw [List.mem_inits] at hbeginning
    rcases List.prefix_or_prefix_of_prefix hbeginning (List.prefix_append words more) with
      hfirst | ⟨later, rfl⟩
    · exact h.beginnings beginning ((List.mem_inits _ _).mpr hfirst)
    · have hlater : later ∈ more.inits :=
        (List.mem_inits _ _).mpr ((List.prefix_append_right_inj words).mp hbeginning)
      have hle := hmore.beginnings later hlater
      have htotal := h.total
      simp only [closings, openings, List.countP_append] at hle htotal ⊢
      omega
  total := by
    have htotal := h.total
    have hlast := hmore.total
    simp only [closings, openings, List.countP_append] at htotal hlast ⊢
    omega

/-- Parentheses that are open before may be more. -/
theorem deeper (h : Leaves depth rest words) (extra : Nat) :
    Leaves (depth + extra) (rest + extra) words where
  beginnings := by
    intro beginning hbeginning
    have hle := h.beginnings beginning hbeginning
    omega
  total := by
    have htotal := h.total
    omega

theorem single {word : Word} (h : rest + closings [word] = depth + openings [word]) :
    Leaves depth rest [word] where
  beginnings := by
    intro beginning hbeginning
    rw [List.mem_inits, List.prefix_cons_iff] at hbeginning
    rcases hbeginning with rfl | ⟨tail, rfl, htail⟩
    · exact Nat.zero_le _
    · rw [List.prefix_nil.mp htail]
      omega
  total := h

theorem opening (depth : Nat) : Leaves depth (depth + 1) [.opening] :=
  single rfl

theorem closing (depth : Nat) : Leaves (depth + 1) depth [.closing] :=
  single rfl

end Leaves

/-! ### Lines -/

/-- Admissible words that never close too much, and that are balanced unless there is a failure. -/
structure Tokens.IsSound (limit : Int) (tokens : Tokens) : Prop where
  admissible : ∀ word ∈ tokens.words, word.IsAdmissible limit
  leaves : ∃ rest, Leaves 0 rest tokens.words ∧ (tokens.error = none → rest = 0)

namespace Tokens.IsSound

variable {limit : Int} {tokens inner after : Tokens}

theorem nil (limit : Int) (error : Option LexicalError) : IsSound limit ⟨[], error⟩ where
  admissible := List.forall_mem_nil _
  leaves := ⟨0, .nil 0, fun _ ↦ rfl⟩

theorem cons (h : tokens.IsSound limit) {word : Word} (hword : word.IsAdmissible limit)
    (hopening : word.kind ≠ .opening) (hclosing : word.kind ≠ .closing) :
    (tokens.cons word).IsSound limit where
  admissible := List.forall_mem_cons.mpr ⟨hword, h.admissible⟩
  leaves := by
    obtain ⟨rest, hleaves, hrest⟩ := h.leaves
    have hsingle : Leaves 0 0 [word] := .single (by simp [closings, openings, hopening, hclosing])
    exact ⟨rest, hsingle.append hleaves, hrest⟩

/-- A group is closed after its last word, or left open where it has a failure. -/
theorem enclose (hinner : inner.IsSound limit) (hafter : after.IsSound limit) :
    (inner.enclose after).IsSound limit := by
  have hopening : Word.opening.IsAdmissible limit := ⟨rfl, by rintro ⟨⟩⟩
  have hclosing : Word.closing.IsAdmissible limit := ⟨rfl, by rintro ⟨⟩⟩
  obtain ⟨rest, hleaves, hrest⟩ := hinner.leaves
  have hopened : Leaves 0 (rest + 1) (.opening :: inner.words) :=
    (Leaves.opening 0).append (hleaves.deeper 1)
  unfold Tokens.enclose
  split
  · refine ⟨List.forall_mem_cons.mpr ⟨hopening, hinner.admissible⟩, rest + 1, hopened, ?_⟩
    rintro ⟨⟩
  · rename_i hnone
    obtain ⟨last, hlast, hzero⟩ := hafter.leaves
    obtain rfl := hrest hnone
    refine ⟨?_, last, hopened.append ((Leaves.closing 0).append hlast), hzero⟩
    exact List.forall_mem_cons.mpr ⟨hopening, List.forall_mem_append.mpr
      ⟨hinner.admissible, List.forall_mem_cons.mpr ⟨hclosing, hafter.admissible⟩⟩⟩

end Tokens.IsSound

/-- Scanning never takes a single parenthesis off a line. -/
theorem kind_scan_ne (line : Bytes) :
    (scan line).1.kind ≠ .opening ∧ (scan line).1.kind ≠ .closing := by
  fun_induction scan line with
  | case2 byte rest hlead ih | case8 byte rest hlead hname ih | case10 byte rest hlead hname ih =>
    exact ih
  | case14 byte rest hlead =>
    rcases kind_operatorWord_cases byte rest with hword | hkind
    · simp [hword, Word.empty]
    · simp [hkind]
  | _ => simp [Word.empty, Word.tab, Word.comma, Word.trail, Word.cast, nameWord]

/-- By induction on the length of the line: a group and the rest of the line are both shorter. -/
theorem isSound_tokenize (limit : Int) (line : Bytes) : (tokenize limit line).IsSound limit := by
  induction hlength : line.length using Nat.strongRecOn generalizing line with
  | ind n ih =>
    subst hlength
    rw [tokenize_eq]
    by_cases hempty : (scan line).1.kind = .empty
    · rw [if_pos hempty]
      exact .nil limit none
    rw [if_neg hempty]
    have hrest := ih _ (length_scan_lt line hempty) _ rfl
    split
    · exact .nil limit _
    · rename_i hrefusal
      split_ifs with hgroup
      · exact (ih _ (length_group_lt line hgroup) _ rfl).enclose hrest
      · obtain ⟨hopening, hclosing⟩ := kind_scan_ne line
        exact hrest.cons (isAdmissible_scan hempty hgroup hrefusal) hopening hclosing

/-- Tokenizing gives admissible words only. Their parentheses are balanced, or there is a lexical
failure, and then none is closed that is not open. -/
theorem isAdmissible_tokenize (limit : Int) (line : Bytes) :
    (∀ word ∈ (tokenize limit line).words, word.IsAdmissible limit) ∧
      ((tokenize limit line).error = none ∧ Balanced 0 (tokenize limit line).words ∨
        ∃ error, (tokenize limit line).error = some error ∧
          error.diagnostic.category = .lexical ∧
          ∀ beginning ∈ (tokenize limit line).words.inits,
            closings beginning ≤ openings beginning) := by
  obtain ⟨hwords, rest, hleaves, hrest⟩ := isSound_tokenize limit line
  refine ⟨hwords, ?_⟩
  cases herror : (tokenize limit line).error with
  | none =>
    obtain rfl := hrest herror
    exact Or.inl ⟨rfl, hleaves.balanced⟩
  | some error =>
    refine Or.inr ⟨error, rfl, ?_, ?_⟩
    · cases error <;> rfl
    · intro beginning hbeginning
      have hle := hleaves.beginnings beginning hbeginning
      rwa [Nat.zero_add] at hle

/-- A failure inside of two groups leaves both open. -/
example : tokenize 256 (utf8 "@F(Ab (1.5.2 ?") =
    ⟨[⟨.funcname, utf8 "f"⟩, .opening, ⟨.name, utf8 "ab"⟩, .opening, ⟨.numeric, utf8 "1.5"⟩, .trail,
      ⟨.numeric, utf8 "2"⟩], some (.invalidOperator (utf8 "?"))⟩ := by
  decide +kernel

end LineScript
