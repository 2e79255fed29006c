import LineScript.Number.Literal
import LineScript.Proofs.Number.Shortest

/-!
Reading plain decimal literals: digits, a point, digits and an exponent, without underscores. Such a
literal denotes the magnitude of its digits taken as one numeral, scaled by the exponent less the
count of digits after the point.
-/

set_option autoImplicit false
set_option relaxedAutoImplicit false

namespace LineScript.Number

open Bytes

/-- A string of digits. -/
def Digits (bytes : Bytes) : Prop :=
  ∀ byte ∈ bytes, isDigit byte = true

theorem Digits.append {first second : Bytes} (hfirst : Digits first) (hsecond : Digits second) :
    Digits (first ++ second) := by
  intro byte hbyte
  rcases List.mem_append.mp hbyte with h | h
  · exact hfirst byte h
  · exact hsecond byte h

theorem Digits.of_subset {first second : Bytes} (hsecond : Digits second)
    (h : first ⊆ second) : Digits first :=
  fun byte hbyte ↦ hsecond byte (h hbyte)

theorem digits_replicate_zero (count : Nat) : Digits (List.replicate count 0x30) := by
  intro byte hbyte
  rw [List.eq_of_mem_replicate hbyte]
  rfl

theorem digits_decimal (n : Nat) : Digits (decimal n) :=
  isDigit_of_mem_decimal

theorem ne_underscore_of_isDigit {byte : UInt8} (h : isDigit byte = true) : byte ≠ 0x5F := by
  rintro rfl
  cases h

theorem digitsOf_digits {digits : Bytes} (h : Digits digits) : digitsOf digits = digits := by
  rw [digitsOf, List.filter_eq_self]
  intro byte hbyte
  simpa using ne_underscore_of_isDigit (h byte hbyte)

theorem hexValue?_digit {byte : UInt8} (h : isDigit byte = true) :
    (hexValue? byte).getD 0 = digitValue byte := by
  simp [hexValue?, h, digitValue]

theorem valueIn_ten {digits : Bytes} (h : Digits digits) : valueIn 10 digits = value digits := by
  induction digits using List.reverseRecOn with
  | nil => rfl
  | append_singleton rest digit ih =>
    have hdigit := h digit (by simp)
    have hrest := ih (h.of_subset (by simp))
    rw [value_append_digit, ← hrest, ← hexValue?_digit hdigit]
    simp [valueIn, List.foldl_append]

theorem underscoresSeparate_of_notMem (isDigit : UInt8 → Bool) {text : Bytes}
    (h : 0x5F ∉ text) (afterDigit : Bool) : underscoresSeparate isDigit afterDigit text = true := by
  induction text generalizing afterDigit with
  | nil => rfl
  | cons byte rest ih =>
    rw [List.mem_cons, not_or] at h
    rw [underscoresSeparate, if_neg (Ne.symm h.1), ih h.2]

/-! ### Exponents -/

theorem isDigitOr_of_isDigit {byte : UInt8} (h : isDigit byte = true) :
    isDigitOr isDigit byte = true := by
  rw [isDigitOr, h, Bool.true_or]

/-- Five digits are within what the reader of exponents tells apart. -/
theorem exponentValue_eq {digits : Bytes} (h : value digits < 100000) :
    exponentValue digits = value digits := by
  induction digits using List.reverseRecOn with
  | nil => rfl
  | append_singleton rest digit ih =>
    rw [value_append_digit] at h ⊢
    rw [← ih (by omega)]
    have hsmall : exponentValue rest < 10000 := by
      rw [ih (by omega)]
      omega
    simp [exponentValue, List.foldl_append] at hsmall ⊢
    omega

theorem exponent?_signed {digits : Bytes} (hdigits : Digits digits) (hne : digits ≠ [])
    (hvalue : value digits < 100000) :
    exponent? (0x2B :: digits) = some (value digits : Int) ∧
      exponent? (0x2D :: digits) = some (-(value digits : Int)) := by
  have hhead : digits.head?.any isDigit = true := by
    cases digits with
    | nil => exact absurd rfl hne
    | cons digit rest => simpa using hdigits digit List.mem_cons_self
  have hall : digits.all (isDigitOr isDigit) = true := by
    rw [List.all_eq_true]
    exact fun byte hbyte ↦ isDigitOr_of_isDigit (hdigits byte hbyte)
  constructor <;> simp [exponent?, hhead, hall, digitsOf_digits hdigits, exponentValue_eq hvalue]

/-! ### Whole literals -/

theorem takeWhile_digits {digits tail : Bytes} (hdigits : Digits digits)
    (htail : ∀ byte ∈ tail.head?, isDigitOr isDigit byte = false) :
    (digits ++ tail).takeWhile (isDigitOr isDigit) = digits ∧
      (digits ++ tail).dropWhile (isDigitOr isDigit) = tail :=
  span_append (fun byte hbyte ↦ isDigitOr_of_isDigit (hdigits byte hbyte)) htail

/-- The magnitude of a literal from its parts: the digits before and after the point, and what
follows them. -/
theorem magnitude?_of_parts {text whole rest fraction tail : Bytes} {exponent : Int}
    (htake : text.takeWhile (isDigitOr isDigit) = whole)
    (hdrop : text.dropWhile (isDigitOr isDigit) = rest)
    (hfraction : Radix.decimal.fraction rest = (fraction, tail))
    (hexponent : Radix.decimal.exponentAfter? tail = some exponent)
    (hdigits : Digits (whole ++ fraction)) (hvalue : value (whole ++ fraction) ≠ 0)
    (hplain : 0x5F ∉ text) :
    Radix.decimal.magnitude? text =
      some (scaledMagnitude (value (whole ++ fraction)) 10 (exponent - fraction.length)) := by
  have hempty : (whole ++ fraction).isEmpty = false := by
    rw [Bool.eq_false_iff, ne_eq, List.isEmpty_iff]
    intro hnil
    rw [hnil] at hvalue
    exact hvalue rfl
  have hseparate : underscoresSeparate Radix.decimal.isDigit Radix.decimal.isMarked text = true :=
    underscoresSeparate_of_notMem _ hplain _
  have hbase : valueIn Radix.decimal.base (whole ++ fraction) = value (whole ++ fraction) :=
    valueIn_ten hdigits
  have hplaces : digitsOf fraction = fraction := digitsOf_digits (hdigits.of_subset (by simp))
  have hpart : Radix.decimal.isDigit = isDigit := rfl
  rw [← hpart] at htake hdrop
  rw [Radix.magnitude?, htake, hdrop, hfraction]
  simp only [digitsOf_digits hdigits, hplaces, hempty, hseparate, hexponent, hbase, hvalue,
    Bool.not_true, Bool.or_self, Bool.false_eq_true, if_false, Option.map_some]
  simp [Radix.decimal]

/-- A literal without a point. -/
theorem magnitude?_whole {digits tail : Bytes} {exponent : Int} (hdigits : Digits digits)
    (hvalue : value digits ≠ 0) (htail : ∀ byte ∈ tail.head?, byte = 0x65) (hplain : 0x5F ∉ tail)
    (hexponent : Radix.decimal.exponentAfter? tail = some exponent) :
    Radix.decimal.magnitude? (digits ++ tail) =
      some (scaledMagnitude (value digits) 10 exponent) := by
  obtain ⟨htake, hdrop⟩ := takeWhile_digits hdigits fun byte hbyte ↦ by
    rw [htail byte hbyte]
    rfl
  have hfraction : Radix.decimal.fraction tail = ([], tail) := by
    unfold Radix.fraction
    split
    · cases htail _ rfl
    · rfl
  have hplain' : 0x5F ∉ digits ++ tail := by
    rw [List.mem_append, not_or]
    exact ⟨fun hmem ↦ ne_underscore_of_isDigit (hdigits _ hmem) rfl, hplain⟩
  have hparts := magnitude?_of_parts htake hdrop hfraction hexponent (by simpa using hdigits)
    (by simpa using hvalue) hplain'
  simpa using hparts

/-- A literal with a point. -/
theorem magnitude?_pointed {whole fraction tail : Bytes} {exponent : Int}
    (hwhole : Digits whole) (hfraction : Digits fraction) (hvalue : value (whole ++ fraction) ≠ 0)
    (htail : ∀ byte ∈ tail.head?, byte = 0x65) (hplain : 0x5F ∉ tail)
    (hexponent : Radix.decimal.exponentAfter? tail = some exponent) :
    Radix.decimal.magnitude? (whole ++ 0x2E :: (fraction ++ tail)) =
      some (scaledMagnitude (value (whole ++ fraction)) 10 (exponent - fraction.length)) := by
  have hpoint : ∀ byte ∈ (0x2E :: (fraction ++ tail) : Bytes).head?,
      isDigitOr isDigit byte = false := by
    intro byte hbyte
    rw [← Option.some.inj hbyte]
    rfl
  obtain ⟨htake, hdrop⟩ := takeWhile_digits hwhole hpoint
  obtain ⟨htake', hdrop'⟩ := takeWhile_digits hfraction fun byte hbyte ↦ by
    rw [htail byte hbyte]
    rfl
  have hsplit : Radix.decimal.fraction (0x2E :: (fraction ++ tail)) = (fraction, tail) := by
    rw [Radix.fraction]
    exact Prod.ext htake' hdrop'
  have hplain' : 0x5F ∉ whole ++ 0x2E :: (fraction ++ tail) := by
    simp only [List.mem_append, List.mem_cons, not_or]
    exact ⟨fun hmem ↦ ne_underscore_of_isDigit (hwhole _ hmem) rfl, by decide,
      fun hmem ↦ ne_underscore_of_isDigit (hfraction _ hmem) rfl, hplain⟩
  exact magnitude?_of_parts htake hdrop hsplit hexponent (hwhole.append hfraction) hvalue hplain'

/-! ### Scaling -/

/-- The magnitude of a decimal whose exponent is a difference of two natural numbers. -/
theorem scaledMagnitude_eq_nearest (digits shift power : Nat) :
    scaledMagnitude digits 10 ((shift : Int) - power) =
      nearest (digits * 10 ^ shift) (10 ^ power) := by
  by_cases hle : power ≤ shift
  · have hexponent : (shift : Int) - power = Int.ofNat (shift - power) := by
      rw [Int.ofNat_eq_natCast, Nat.cast_sub hle]
    have hshift : shift = power + (shift - power) := by omega
    rw [hexponent, scaledMagnitude, ← nearest_mul (Nat.pow_pos (n := power) (show 0 < 10 by omega))]
    congr 1
    · rw [Nat.mul_left_comm, ← Nat.pow_add, ← hshift]
    · rw [Nat.mul_one]
  · have hexponent : (shift : Int) - power = Int.negSucc (power - shift - 1) := by
      omega
    have hpower : power = shift + (power - shift - 1 + 1) := by omega
    rw [hexponent, scaledMagnitude, ← nearest_mul (Nat.pow_pos (n := shift) (show 0 < 10 by omega))]
    congr 1
    · rw [Nat.mul_comm]
    · rw [← Nat.pow_add, ← hpower]

end LineScript.Number
