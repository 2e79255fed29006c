import LineScript.Number.Notation
import LineScript.Proofs.Number.Literal

/-!
The text of a number reads back. Both notations write the significant digits of a decimal and place
its point, so reading either gives the magnitude of the same decimal; the shortest decimal restores
the number. A NaN comes back as the one NaN that reading produces, and every other number comes back
with all its bits.
-/

set_option autoImplicit false
set_option relaxedAutoImplicit false

namespace LineScript.Number

open Bytes

/-! ### Significant digits -/

theorem significant_append (digits : Bytes) (digit : UInt8) :
    significant (digits ++ [digit]) =
      if digit = 0x30 then significant digits else digits ++ [digit] := by
  by_cases hzero : digit = 0x30 <;> simp [significant, hzero]

/-- Digits are their significant digits and zeros after them. -/
theorem exists_significant (digits : Bytes) :
    ∃ count, digits = significant digits ++ List.replicate count 0x30 := by
  induction digits using List.reverseRecOn with
  | nil => exact ⟨0, rfl⟩
  | append_singleton rest digit ih =>
    obtain ⟨count, hrest⟩ := ih
    rw [significant_append]
    split_ifs with hzero
    · refine ⟨count + 1, ?_⟩
      rw [List.replicate_succ', ← List.append_assoc, ← hrest, hzero]
    · exact ⟨0, by simp⟩

/-! ### The two notations -/

/-- A byte that may occur in the text of a finite number. -/
def isNumeralByte (byte : UInt8) : Bool :=
  isDigit byte || byte == 0x2E || byte == 0x65 || byte == 0x2B || byte == 0x2D

theorem isNumeralByte_of_isDigit {byte : UInt8} (h : isDigit byte = true) :
    isNumeralByte byte = true := by
  rw [isNumeralByte, h]
  rfl

/-- The exponent at the end of a literal, as it is written. -/
def exponentTail (exponent : Int) : Bytes :=
  0x65 :: (if exponent < 0 then 0x2D else 0x2B) :: padded 0x30 2 (decimal exponent.natAbs)

theorem digits_padded (width n : Nat) : Digits (padded 0x30 width (decimal n)) :=
  (digits_replicate_zero _).append (digits_decimal n)

theorem exponentAfter?_exponentTail {exponent : Int} (h : exponent.natAbs < 100000) :
    Radix.decimal.exponentAfter? (exponentTail exponent) = some exponent := by
  have hvalue : value (padded 0x30 2 (decimal exponent.natAbs)) = exponent.natAbs := by
    rw [padded, value_zeros_append, value_decimal]
  have hne : padded 0x30 2 (decimal exponent.natAbs) ≠ [] := by
    simp [padded, decimal_ne_nil]
  obtain ⟨hplus, hminus⟩ := exponent?_signed (digits_padded 2 exponent.natAbs) hne
    (by rw [hvalue]; exact h)
  rw [exponentTail, Radix.exponentAfter?, if_pos (by rfl)]
  split_ifs with hnegative
  · rw [hminus, hvalue]
    congr 1
    omega
  · rw [hplus, hvalue]
    congr 1
    omega

theorem isNumeralByte_exponentTail (exponent : Int) :
    ∀ byte ∈ exponentTail exponent, isNumeralByte byte = true := by
  intro byte hbyte
  rw [exponentTail, List.mem_cons, List.mem_cons] at hbyte
  rcases hbyte with rfl | rfl | hdigit
  · rfl
  · split_ifs <;> rfl
  · exact isNumeralByte_of_isDigit (digits_padded _ _ byte hdigit)

theorem underscore_notMem {bytes : Bytes} (h : ∀ byte ∈ bytes, isNumeralByte byte = true) :
    0x5F ∉ bytes := by
  intro hmem
  cases h _ hmem

theorem magnitude?_scientific {digits : Bytes} {exponent : Int} (hdigits : Digits digits)
    (hvalue : value digits ≠ 0) (hexponent : exponent.natAbs < 100000) :
    Radix.decimal.magnitude? (scientific digits exponent) =
      some (scaledMagnitude (value digits) 10 (exponent + 1 - digits.length)) := by
  have hplain := underscore_notMem (isNumeralByte_exponentTail exponent)
  have htail : ∀ byte ∈ (exponentTail exponent).head?, byte = 0x65 := by
    intro byte hbyte
    exact (Option.some.inj hbyte).symm
  have hread := exponentAfter?_exponentTail hexponent
  rcases digits with _ | ⟨digit, _ | ⟨second, rest⟩⟩
  · exact absurd rfl hvalue
  · have hwhole := magnitude?_whole hdigits hvalue htail hplain hread
    simpa [scientific, exponentTail] using hwhole
  · have hfirst : Digits [digit] := hdigits.of_subset (by simp)
    have hrest : Digits (second :: rest) := hdigits.of_subset (by simp)
    have hpointed := magnitude?_pointed hfirst hrest hvalue htail hplain hread
    have hplaces : exponent + 1 - ((digit :: second :: rest).length : Nat) =
        exponent - ((second :: rest).length : Nat) := by
      simp only [List.length_cons]
      omega
    rw [hplaces]
    exact hpointed

theorem magnitude?_positional {digits : Bytes} (whole : Int) (hdigits : Digits digits)
    (hvalue : value digits ≠ 0) :
    Radix.decimal.magnitude? (positional digits whole) =
      some (scaledMagnitude (value digits) 10 (whole - digits.length)) := by
  have htail : ∀ byte ∈ ([] : Bytes).head?, byte = 0x65 := by simp
  unfold positional
  dsimp only
  split_ifs with hsmall hlong
  · have hzeros := digits_replicate_zero whole.natAbs
    have hall : value ([0x30] ++ (List.replicate whole.natAbs 0x30 ++ digits)) = value digits := by
      rw [← List.replicate_one, value_zeros_append, value_zeros_append]
    have hpointed := magnitude?_pointed (digits_replicate_zero 1) (hzeros.append hdigits)
      (by rw [List.replicate_one, hall]; exact hvalue) htail (by simp) rfl
    have hplaces : (0 : Int) - ((List.replicate whole.natAbs 0x30 ++ digits).length : Nat) =
        whole - digits.length := by
      rw [List.length_append, List.length_replicate]
      omega
    rw [List.replicate_one, hall, hplaces, List.append_nil] at hpointed
    exact hpointed
  · have hzeros := digits_replicate_zero (whole.toNat - digits.length)
    have hall := value_append_zeros digits (whole.toNat - digits.length)
    have hpower : 0 < 10 ^ (whole.toNat - digits.length) := Nat.pow_pos (by omega)
    have hwhole := magnitude?_whole (hdigits.append hzeros)
      (by rw [hall]; exact Nat.mul_ne_zero hvalue hpower.ne') htail (by simp) rfl
    have hexponent : whole - digits.length =
        ((whole.toNat - digits.length : Nat) : Int) - (0 : Nat) := by
      omega
    have hnearest : scaledMagnitude (value digits * 10 ^ (whole.toNat - digits.length)) 10 0 =
        nearest (value digits * 10 ^ (whole.toNat - digits.length)) (10 ^ 0) := by
      simpa using scaledMagnitude_eq_nearest
        (value digits * 10 ^ (whole.toNat - digits.length)) 0 0
    rw [List.append_nil, hall] at hwhole
    rw [hexponent, scaledMagnitude_eq_nearest, ← hnearest]
    exact hwhole
  · have htake : Digits (digits.take whole.toNat) := hdigits.of_subset (List.take_subset _ _)
    have hdrop : Digits (digits.drop whole.toNat) := hdigits.of_subset (List.drop_subset _ _)
    have hpointed := magnitude?_pointed htake hdrop
      (by rw [List.take_append_drop]; exact hvalue) htail (by simp) rfl
    have hplaces : (0 : Int) - ((digits.drop whole.toNat).length : Nat) =
        whole - digits.length := by
      rw [List.length_drop]
      omega
    rw [List.take_append_drop, hplaces, List.append_nil] at hpointed
    exact hpointed

/-! ### Finite numbers -/

theorem digits_shortest_ne_zero {magnitude : Nat} (hzero : magnitude ≠ 0) :
    (shortest magnitude).digits ≠ 0 := by
  intro hdigits
  obtain ⟨shift, -, hnearest, -, -⟩ := restores_shortest magnitude
  rw [hdigits, Nat.zero_mul, nearest_zero] at hnearest
  exact hzero hnearest.symm

/-- The significant digits of the shortest decimal of a magnitude. -/
def shortestDigits (magnitude : Nat) : Bytes :=
  significant (decimal (shortest magnitude).digits)

theorem digits_shortestDigits (magnitude : Nat) : Digits (shortestDigits magnitude) := by
  obtain ⟨count, hdigits⟩ := exists_significant (decimal (shortest magnitude).digits)
  refine (digits_decimal (shortest magnitude).digits).of_subset ?_
  rw [hdigits]
  exact List.subset_append_left _ _

theorem value_shortestDigits_ne_zero {magnitude : Nat} (hzero : magnitude ≠ 0) :
    value (shortestDigits magnitude) ≠ 0 := by
  intro hvalue
  obtain ⟨count, hdigits⟩ := exists_significant (decimal (shortest magnitude).digits)
  have hall := congrArg value hdigits
  rw [value_decimal, value_append_zeros, ← shortestDigits, hvalue, Nat.zero_mul] at hall
  exact digits_shortest_ne_zero hzero hall

/-- The text of a finite magnitude is written in one of the two notations. -/
theorem finiteText_cases {magnitude : Nat} (hfinite : magnitude < infinity) :
    ∃ whole : Int,
      scaledMagnitude (value (shortestDigits magnitude)) 10
        (whole - (shortestDigits magnitude).length) = magnitude ∧
      (whole - 1).natAbs < 100000 ∧
      (finiteText magnitude = scientific (shortestDigits magnitude) (whole - 1) ∨
        finiteText magnitude = positional (shortestDigits magnitude) whole) := by
  have hrestores := restores_shortest magnitude
  have hlength := hrestores.length_le hfinite
  obtain ⟨shift, hexponent, hnearest, -, hshift⟩ := hrestores
  have hcount := Nat.le_trans hshift (digitCount_expanded_le hfinite)
  refine ⟨(decimal (shortest magnitude).digits).length + (shortest magnitude).exponent, ?_, ?_, ?_⟩
  · obtain ⟨count, hdigits⟩ := exists_significant (decimal (shortest magnitude).digits)
    rw [← shortestDigits] at hdigits
    have hvalue : value (shortestDigits magnitude) * 10 ^ count = (shortest magnitude).digits := by
      rw [← value_append_zeros, ← hdigits, value_decimal]
    have hsum : (decimal (shortest magnitude).digits).length =
        (shortestDigits magnitude).length + count := by
      rw [hdigits, List.length_append, List.length_replicate]
    have hshifted : ((decimal (shortest magnitude).digits).length : Int) +
        (shortest magnitude).exponent - (shortestDigits magnitude).length =
          ((count + shift : Nat) : Int) - (1075 : Nat) := by
      rw [hsum, hexponent]
      omega
    rw [hshifted, scaledMagnitude_eq_nearest, Nat.pow_add, ← Nat.mul_assoc, hvalue, hnearest]
  · rw [hexponent]
    omega
  · unfold finiteText
    dsimp only
    split_ifs
    · exact Or.inl rfl
    · exact Or.inr rfl

/-- The text of a finite magnitude denotes it. -/
theorem magnitude?_finiteText {magnitude : Nat} (hzero : magnitude ≠ 0)
    (hfinite : magnitude < infinity) :
    Radix.decimal.magnitude? (finiteText magnitude) = some magnitude := by
  have hdigits := digits_shortestDigits magnitude
  have hvalue := value_shortestDigits_ne_zero hzero
  obtain ⟨whole, hscaled, hbound, htext | htext⟩ := finiteText_cases hfinite
  · rw [htext, magnitude?_scientific hdigits hvalue hbound, Int.sub_add_cancel, hscaled]
  · rw [htext, magnitude?_positional whole hdigits hvalue, hscaled]

theorem isNumeralByte_scientific {digits : Bytes} (hdigits : Digits digits) (exponent : Int) :
    ∀ byte ∈ scientific digits exponent, isNumeralByte byte = true := by
  intro byte hbyte
  have htail := isNumeralByte_exponentTail exponent
  rcases digits with _ | ⟨digit, _ | ⟨second, rest⟩⟩
  · exact htail byte hbyte
  · rcases List.mem_cons.mp hbyte with rfl | hrest
    · exact isNumeralByte_of_isDigit (hdigits _ (by simp))
    · exact htail byte hrest
  · rcases List.mem_append.mp hbyte with hfirst | hrest
    · rcases List.mem_cons.mp hfirst with rfl | hpoint
      · exact isNumeralByte_of_isDigit (hdigits _ (by simp))
      · rcases List.mem_cons.mp hpoint with rfl | hdigit
        · rfl
        · exact isNumeralByte_of_isDigit (hdigits _ (List.mem_cons_of_mem _ hdigit))
    · exact htail byte hrest

/-- In positional notation there are digits, and digits after a point if there is one. -/
theorem positional_cases {digits : Bytes} (hdigits : Digits digits) (hne : digits ≠ [])
    (whole : Int) :
    ∃ before, before ≠ [] ∧ Digits before ∧ (positional digits whole = before ∨
      ∃ after, Digits after ∧ positional digits whole = before ++ 0x2E :: after) := by
  unfold positional
  dsimp only
  split_ifs with hsmall hlong
  · have hafter := (digits_replicate_zero whole.natAbs).append hdigits
    exact ⟨[0x30], by simp, digits_replicate_zero 1, Or.inr ⟨_, hafter, rfl⟩⟩
  · have hbefore := hdigits.append (digits_replicate_zero (whole.toNat - digits.length))
    exact ⟨_, List.append_ne_nil_of_left_ne_nil hne _, hbefore, Or.inl rfl⟩
  · have hbefore : Digits (digits.take whole.toNat) := hdigits.of_subset (List.take_subset _ _)
    have hafter : Digits (digits.drop whole.toNat) := hdigits.of_subset (List.drop_subset _ _)
    refine ⟨_, ?_, hbefore, Or.inr ⟨_, hafter, rfl⟩⟩
    rw [ne_eq, List.take_eq_nil_iff]
    exact not_or.mpr ⟨by omega, hne⟩

theorem isNumeralByte_positional {digits : Bytes} (hdigits : Digits digits) (hne : digits ≠ [])
    (whole : Int) : ∀ byte ∈ positional digits whole, isNumeralByte byte = true := by
  obtain ⟨before, -, hbefore, htext | ⟨after, hafter, htext⟩⟩ := positional_cases hdigits hne whole
  · rw [htext]
    exact fun byte hbyte ↦ isNumeralByte_of_isDigit (hbefore byte hbyte)
  · rw [htext, List.forall_mem_append, List.forall_mem_cons]
    exact ⟨fun byte hbyte ↦ isNumeralByte_of_isDigit (hbefore byte hbyte), rfl,
      fun byte hbyte ↦ isNumeralByte_of_isDigit (hafter byte hbyte)⟩

theorem shortestDigits_ne_nil {magnitude : Nat} (hzero : magnitude ≠ 0) :
    shortestDigits magnitude ≠ [] := by
  intro hnil
  have hvalue := value_shortestDigits_ne_zero hzero
  rw [hnil] at hvalue
  exact hvalue rfl

theorem isNumeralByte_finiteText {magnitude : Nat} (hzero : magnitude ≠ 0)
    (hfinite : magnitude < infinity) :
    ∀ byte ∈ finiteText magnitude, isNumeralByte byte = true := by
  have hdigits := digits_shortestDigits magnitude
  obtain ⟨whole, -, -, htext | htext⟩ := finiteText_cases hfinite
  · rw [htext]
    exact isNumeralByte_scientific hdigits _
  · rw [htext]
    exact isNumeralByte_positional hdigits (shortestDigits_ne_nil hzero) _

/-- The text of a finite magnitude starts with a digit. -/
theorem exists_digit_finiteText {magnitude : Nat} (hzero : magnitude ≠ 0)
    (hfinite : magnitude < infinity) :
    ∃ digit rest, finiteText magnitude = digit :: rest ∧ isDigit digit = true := by
  have hdigits := digits_shortestDigits magnitude
  have hne := shortestDigits_ne_nil hzero
  obtain ⟨whole, -, -, htext | htext⟩ := finiteText_cases hfinite
  · obtain ⟨digit, rest, hcons⟩ := List.exists_cons_of_ne_nil hne
    have hdigit := hdigits digit (by rw [hcons]; exact List.mem_cons_self)
    rw [hcons] at htext
    exact ⟨digit, _, htext, hdigit⟩
  · obtain ⟨before, hbefore, hall, hcases⟩ := positional_cases hdigits hne whole
    obtain ⟨digit, rest, rfl⟩ := List.exists_cons_of_ne_nil hbefore
    have hdigit := hall digit List.mem_cons_self
    rcases hcases with hplain | ⟨after, -, hpointed⟩
    · exact ⟨digit, _, htext.trans hplain, hdigit⟩
    · exact ⟨digit, _, htext.trans hpointed, hdigit⟩

/-! ### All numbers -/

/-- The number that reading gives for the text of a number. Only the NaNs are not told apart. -/
def canonical (number : Number) : Number :=
  if infinity < number.magnitude then nan else number

theorem ofMagnitude_magnitude (number : Number) :
    ofMagnitude number.isNegative number.magnitude = number := by
  have hbits : number.bits.toNat < 2 ^ 64 := number.bits.toNat_lt
  have hnat : (if number.isNegative then 2 ^ 63 + number.magnitude else number.magnitude) =
      number.bits.toNat := by
    simp only [isNegative, magnitude, decide_eq_true_eq]
    split_ifs <;> omega
  rw [ofMagnitude, hnat, UInt64.ofNat_toNat]

theorem lowerByte_digit {byte : UInt8} (h : isDigit byte = true) : lowerByte byte = byte := by
  rw [isDigit_iff] at h
  have hcapital : isCapital byte = false := by
    simp only [isCapital, UInt8.le_iff_toNat_le, UInt8.reduceToNat, Bool.and_eq_false_iff,
      decide_eq_false_iff_not]
    omega
  rw [lowerByte, hcapital]
  rfl

theorem isDigit_ne {byte other : UInt8} (h : isDigit byte = true) (hother : isDigit other = false) :
    byte ≠ other := by
  rintro rfl
  rw [h] at hother
  cases hother

/-- A literal in the bytes of a finite number is read as a decimal. -/
theorem unsignedMagnitude?_of_numeral {text : Bytes}
    (h : ∀ byte ∈ text, isNumeralByte byte = true) :
    unsignedMagnitude? text = Radix.decimal.magnitude? text := by
  unfold unsignedMagnitude?
  split
  · rename_i mark first rest
    rw [if_neg]
    intro hmark
    have hbyte := h mark (by simp)
    simp only [isNumeralByte, Bool.or_eq_true, beq_iff_eq] at hbyte
    rcases hbyte with (((hdigit | rfl) | rfl) | rfl) | rfl
    · rw [lowerByte_digit hdigit] at hmark
      exact isDigit_ne hdigit rfl hmark
    · cases hmark
    · cases hmark
    · cases hmark
    · cases hmark
  · rfl

theorem unsigned_of_digit {digit : UInt8} (h : isDigit digit = true) (rest : Bytes) :
    unsigned (digit :: rest) = (none, digit :: rest) := by
  unfold unsigned
  split
  · rename_i hsign
    exact absurd (List.cons.inj hsign).1 (isDigit_ne h rfl)
  · rename_i hsign
    exact absurd (List.cons.inj hsign).1 (isDigit_ne h rfl)
  · rfl

theorem lower_ne_of_digit {digit letter : UInt8} (h : isDigit digit = true)
    (hletter : isDigit letter = false) (rest name : Bytes) :
    lower (digit :: rest) ≠ letter :: name := by
  intro hlower
  have hhead := (List.cons.inj hlower).1
  rw [lowerByte_digit h] at hhead
  exact isDigit_ne h hletter hhead

/-- A literal that starts with a digit is no name, whatever its sign. -/
theorem read?_of_digit {digit : UInt8} (h : isDigit digit = true) (rest : Bytes) :
    read? (digit :: rest) = (unsignedMagnitude? (digit :: rest)).bind (fun magnitude ↦
        if magnitude < infinity then some (ofMagnitude false magnitude) else none) ∧
      read? (0x2D :: digit :: rest) = (unsignedMagnitude? (digit :: rest)).bind fun magnitude ↦
        if magnitude < infinity then some (ofMagnitude true magnitude) else none := by
  have hinf : lower (digit :: rest) ≠ utf8 "inf" := lower_ne_of_digit h rfl _ _
  have hinfinity : lower (digit :: rest) ≠ utf8 "infinity" := lower_ne_of_digit h rfl _ _
  have hnan : lower (digit :: rest) ≠ utf8 "nan" := lower_ne_of_digit h rfl _ _
  constructor
  · rw [read?, unsigned_of_digit h]
    cases hmagnitude : unsignedMagnitude? (digit :: rest) <;>
      simp [hinf, hinfinity, hnan, hmagnitude]
  · rw [read?, unsigned]
    cases hmagnitude : unsignedMagnitude? (digit :: rest) <;> simp [hinf, hinfinity, hmagnitude]

theorem read?_numeral {digit : UInt8} {rest : Bytes} {magnitude : Nat}
    (hdigit : isDigit digit = true) (hnumeral : ∀ byte ∈ digit :: rest, isNumeralByte byte = true)
    (hread : Radix.decimal.magnitude? (digit :: rest) = some magnitude)
    (hfinite : magnitude < infinity) :
    read? (digit :: rest) = some (ofMagnitude false magnitude) ∧
      read? (0x2D :: digit :: rest) = some (ofMagnitude true magnitude) := by
  obtain ⟨hpositive, hnegative⟩ := read?_of_digit hdigit rest
  rw [hpositive, hnegative, unsignedMagnitude?_of_numeral hnumeral, hread, Option.bind_some,
    Option.bind_some, if_pos hfinite, if_pos hfinite]
  exact ⟨rfl, rfl⟩

theorem read?_text_finite {number : Number} (hzero : number.magnitude ≠ 0)
    (hfinite : number.magnitude < infinity) : read? number.text = some number := by
  obtain ⟨digit, rest, htext, hdigit⟩ := exists_digit_finiteText hzero hfinite
  have hnumeral := isNumeralByte_finiteText hzero hfinite
  have hread := magnitude?_finiteText hzero hfinite
  rw [htext] at hnumeral hread
  obtain ⟨hpositive, hnegative⟩ := read?_numeral hdigit hnumeral hread hfinite
  have hnumber := ofMagnitude_magnitude number
  unfold text
  dsimp only
  rw [if_neg (by omega), if_neg (by omega), if_neg hzero, htext]
  cases hsign : number.isNegative with
  | false =>
    rw [hsign] at hnumber
    rw [if_neg (by simp), List.nil_append, hpositive, hnumber]
  | true =>
    rw [hsign] at hnumber
    rw [if_pos rfl, List.singleton_append, hnegative, hnumber]

/-- A magnitude whose two numbers both read back. -/
theorem read?_text_of_magnitude {magnitude : Nat}
    (h : ∀ negative, read? (ofMagnitude negative magnitude).text =
      some (ofMagnitude negative magnitude))
    {number : Number} (hmagnitude : number.magnitude = magnitude) :
    read? number.text = some number := by
  rw [← ofMagnitude_magnitude number, hmagnitude]
  exact h number.isNegative

/-- The text of a number reads back as the number, and that of a NaN as the NaN of reading. -/
theorem read?_text (number : Number) : read? number.text = some number.canonical := by
  by_cases hnan : infinity < number.magnitude
  · rw [text, if_pos hnan, canonical, if_pos hnan]
    rfl
  · rw [canonical, if_neg hnan]
    by_cases hinfinite : number.magnitude = infinity
    · exact read?_text_of_magnitude (by decide) hinfinite
    · by_cases hzero : number.magnitude = 0
      · exact read?_text_of_magnitude (by decide) hzero
      · exact read?_text_finite hzero (by omega)

/-- The text of a number is one line. -/
theorem newline_notMem_text (number : Number) : 0x0A ∉ number.text := by
  have hsign : 0x0A ∉ (if number.isNegative then [0x2D] else [] : Bytes) := by
    split_ifs <;> decide
  unfold text
  dsimp only
  by_cases hnan : infinity < number.magnitude
  · rw [if_pos hnan]
    decide
  · rw [if_neg hnan]
    by_cases hinfinite : number.magnitude = infinity
    · rw [if_pos hinfinite]
      split_ifs <;> decide
    · rw [if_neg hinfinite]
      by_cases hzero : number.magnitude = 0
      · rw [if_pos hzero, List.mem_append, not_or]
        exact ⟨hsign, by decide⟩
      · rw [if_neg hzero, List.mem_append, not_or]
        have hfinite : number.magnitude < infinity := by omega
        refine ⟨hsign, fun hmem ↦ ?_⟩
        cases isNumeralByte_finiteText hzero hfinite _ hmem

theorem magnitude_ofMagnitude (negative : Bool) {magnitude : Nat} (h : magnitude ≤ infinity) :
    (ofMagnitude negative magnitude).magnitude = magnitude := by
  have hsmall : infinity < 2 ^ 63 := by decide
  rw [ofMagnitude, Number.magnitude, UInt64.toNat_ofNat']
  split_ifs <;> omega

/-- Reading gives no NaN but its own. -/
theorem canonical_of_read? {text : Bytes} {number : Number} (h : read? text = some number) :
    number.canonical = number := by
  have hkept {negative : Bool} {magnitude : Nat} (hle : magnitude ≤ infinity) :
      (ofMagnitude negative magnitude).canonical = ofMagnitude negative magnitude := by
    rw [canonical, magnitude_ofMagnitude negative hle, if_neg (Nat.not_lt.mpr hle)]
  unfold read? at h
  dsimp only at h
  split_ifs at h with hinfinity hnan
  · rw [← Option.some.inj h]
    exact hkept (Nat.le_refl _)
  · rw [← Option.some.inj h]
    rfl
  · split at h
    · split_ifs at h with hfinite
      rw [← Option.some.inj h]
      exact hkept (Nat.le_of_lt hfinite)
    · cases h

end LineScript.Number
