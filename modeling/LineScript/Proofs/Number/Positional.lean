import LineScript.Proofs.Number.RoundTrip

/-!
Which numbers are written without an exponent. The shortest decimal of a number lies between two
powers of ten as the number does, unless it is the power of ten above the number. That happens at
neither bound of positional notation: a million is a number itself, and the number that is nearest
to one ten-thousandth is not below it. So the numbers that are written positionally are zero and
those from one ten-thousandth up to a million.
-/

set_option autoImplicit false
set_option relaxedAutoImplicit false

namespace LineScript.Number

open Bytes

-- Powers are those of the core library, as in the definitions.
attribute [local instance (2000)] instPowNat

/-! ### Counts of digits -/

theorem pow_le_iff_lt_digitCount {n : Nat} (hn : n ≠ 0) (power : Nat) :
    10 ^ power ≤ n ↔ power < digitCount n := by
  induction n using Nat.strong_induction_on generalizing power with
  | _ n ih =>
    rw [digitCount]
    cases power with
    | zero =>
      have hpos : 10 ^ (0 : Nat) ≤ n := Nat.pos_of_ne_zero hn
      split_ifs
      · exact iff_of_true hpos Nat.one_pos
      · exact iff_of_true hpos (Nat.succ_pos _)
    | succ power =>
      have hstep : 10 ^ (power + 1) ≤ n ↔ 10 ^ power ≤ n / 10 := by
        rw [Nat.le_div_iff_mul_le (by omega), Nat.pow_succ]
      rw [hstep]
      split_ifs with hsmall
      · have hone : 0 < 10 ^ power := Nat.pow_pos (by omega)
        omega
      · rw [ih (n / 10) (by omega) (by omega), Nat.add_lt_add_iff_right]

theorem lt_pow_iff_digitCount_le {n : Nat} (hn : n ≠ 0) (power : Nat) :
    n < 10 ^ power ↔ digitCount n ≤ power := by
  rw [← Nat.not_le, pow_le_iff_lt_digitCount hn, Nat.not_lt]

theorem digitCount_eq {n power : Nat} (hle : 10 ^ power ≤ n) (hlt : n < 10 ^ (power + 1)) :
    digitCount n = power + 1 := by
  have hn : n ≠ 0 := Nat.ne_of_gt (Nat.lt_of_lt_of_le (Nat.pow_pos (by omega)) hle)
  have hlower := (pow_le_iff_lt_digitCount hn power).mp hle
  have hupper := (lt_pow_iff_digitCount_le hn (power + 1)).mp hlt
  omega

theorem digitCount_div {n shift : Nat} (hshift : shift < digitCount n) (hn : n ≠ 0) :
    10 ^ (digitCount n - shift - 1) ≤ n / 10 ^ shift ∧
      n / 10 ^ shift < 10 ^ (digitCount n - shift - 1 + 1) := by
  have hunit : 0 < 10 ^ shift := Nat.pow_pos (by omega)
  rw [Nat.le_div_iff_mul_le hunit, Nat.div_lt_iff_lt_mul hunit, ← Nat.pow_add, ← Nat.pow_add,
    pow_le_iff_lt_digitCount hn, lt_pow_iff_digitCount_le hn]
  omega

/-! ### Exponents -/

theorem expanded_ne_zero {magnitude : Nat} (hzero : magnitude ≠ 0) : expanded magnitude ≠ 0 := by
  intro hexpanded
  have hnearest := nearest_expanded magnitude
  rw [hexpanded, nearest_zero] at hnearest
  exact hzero hnearest.symm

/-- The shortest decimal has its first digit where the number has it, unless it is the power of ten
above the number. -/
theorem exponent_shortest {magnitude : Nat} (hzero : magnitude ≠ 0) :
    (digitCount (shortest magnitude).digits : Int) + (shortest magnitude).exponent =
        digitCount (expanded magnitude) - 1075 ∨
      (digitCount (shortest magnitude).digits : Int) + (shortest magnitude).exponent =
          digitCount (expanded magnitude) + 1 - 1075 ∧
        nearest (10 ^ digitCount (expanded magnitude)) (10 ^ (1075 : Nat)) = magnitude := by
  obtain ⟨shift, hshift, hexponent, hnearest, hdigits⟩ := shortest_cases magnitude
  obtain ⟨hle, hlt⟩ := digitCount_div hshift (expanded_ne_zero hzero)
  rw [hexponent]
  generalize expanded magnitude / 10 ^ shift = below at *
  rcases hdigits with hbelow | habove
  · rw [hbelow, digitCount_eq hle hlt]
    omega
  · rw [habove] at hnearest ⊢
    by_cases hcarry : below + 1 = 10 ^ (digitCount (expanded magnitude) - shift - 1 + 1)
    · have hcount : digitCount (below + 1) = digitCount (expanded magnitude) - shift - 1 + 1 + 1 :=
        digitCount_eq hcarry.ge (hcarry ▸ Nat.pow_lt_pow_right (by omega) (by omega))
      have hpower : digitCount (expanded magnitude) - shift - 1 + 1 + shift =
          digitCount (expanded magnitude) := by
        omega
      rw [hcarry, ← Nat.pow_add, hpower] at hnearest
      exact Or.inr ⟨by omega, hnearest⟩
    · rw [digitCount_eq (Nat.le_succ_of_le hle) (by omega)]
      omega

/-! ### Bounds -/

/-- Whether the value `significand * 2 ^ scale / 2 ^ 1075` of a magnitude is at least one
ten-thousandth and below a million. -/
def IsModerate (magnitude : Nat) : Prop :=
  2 ^ (1075 : Nat) ≤ 10 ^ (4 : Nat) * (significand magnitude * 2 ^ scale magnitude) ∧
    significand magnitude * 2 ^ scale magnitude < 10 ^ (6 : Nat) * 2 ^ (1075 : Nat)

theorem five_pow_pos (power : Nat) : 0 < 5 ^ power :=
  Nat.pow_pos (by omega)

theorem pow_le_mul_five_pow_iff (value power extra : Nat) :
    10 ^ power ≤ value * 5 ^ (power + extra) ↔ 2 ^ (power + extra) ≤ 10 ^ extra * value := by
  have hten : 0 < 10 ^ extra := Nat.pow_pos (by omega)
  rw [← Nat.mul_le_mul_left_iff hten, ← Nat.pow_add, Nat.add_comm extra power,
    ten_pow (power + extra), ← Nat.mul_assoc, Nat.mul_comm (5 ^ _),
    Nat.mul_le_mul_right_iff (five_pow_pos _)]

theorem mul_five_pow_lt_iff (value power extra : Nat) :
    value * 5 ^ power < 10 ^ (power + extra) ↔ value < 10 ^ extra * 2 ^ power := by
  rw [Nat.pow_add, ten_pow power, Nat.mul_comm (5 ^ power * _), Nat.mul_comm (5 ^ power),
    ← Nat.mul_assoc, Nat.mul_lt_mul_right (five_pow_pos _)]

theorem isModerate_iff (magnitude : Nat) :
    IsModerate magnitude ↔
      10 ^ (1071 : Nat) ≤ expanded magnitude ∧ expanded magnitude < 10 ^ (1081 : Nat) := by
  have hlower := pow_le_mul_five_pow_iff (significand magnitude * 2 ^ scale magnitude) 1071 4
  have hupper := mul_five_pow_lt_iff (significand magnitude * 2 ^ scale magnitude) 1075 6
  simp only [Nat.reduceAdd] at hlower hupper
  rw [IsModerate, expanded, hlower, hupper]

/-- At the bounds no number is below a power of ten that it is nearest to: a million is a number,
and the number nearest to one ten-thousandth is not below it. -/
theorem lt_digitCount_of_nearest {magnitude power : Nat} (hpower : power = 1071 ∨ power = 1081)
    (h : nearest (10 ^ power) (10 ^ (1075 : Nat)) = magnitude) :
    power < digitCount (expanded magnitude) := by
  have hbounds : ∀ power ∈ [1071, 1081],
      nearest (10 ^ power) (10 ^ (1075 : Nat)) ≠ 0 ∧
        10 ^ power ≤ expanded (nearest (10 ^ power) (10 ^ (1075 : Nat))) := by
    decide +kernel
  obtain ⟨hzero, hle⟩ := hbounds power (by simpa using hpower)
  rw [h] at hzero hle
  exact (pow_le_iff_lt_digitCount (expanded_ne_zero hzero) power).mp hle

/-- The exponent is written out for all numbers but those of moderate size. -/
theorem isWide_shortest_iff {magnitude : Nat} (hzero : magnitude ≠ 0) :
    isWide ((decimal (shortest magnitude).digits).length + (shortest magnitude).exponent - 1) =
      false ↔ IsModerate magnitude := by
  have hexpanded := expanded_ne_zero hzero
  have hwide (exponent : Int) : isWide exponent = false ↔ -4 ≤ exponent ∧ exponent < 6 := by
    simp [isWide]
  rw [hwide, length_decimal, isModerate_iff, pow_le_iff_lt_digitCount hexpanded 1071,
    lt_pow_iff_digitCount_le hexpanded 1081]
  rcases exponent_shortest hzero with hsame | ⟨hnext, hcarry⟩
  · rw [hsame]
    omega
  · have hbounds : ¬ (digitCount (expanded magnitude) = 1071 ∨
        digitCount (expanded magnitude) = 1081) :=
      fun hcount ↦ Nat.lt_irrefl _ (lt_digitCount_of_nearest hcount hcarry)
    rw [hnext]
    omega

theorem finiteText_of_isModerate {magnitude : Nat} (hzero : magnitude ≠ 0)
    (h : IsModerate magnitude) :
    ∃ whole, finiteText magnitude = positional (shortestDigits magnitude) whole := by
  refine ⟨(decimal (shortest magnitude).digits).length + (shortest magnitude).exponent, ?_⟩
  have hwide := (isWide_shortest_iff hzero).mpr h
  rw [finiteText, shortestDigits, if_neg (Bool.eq_false_iff.mp hwide)]

theorem finiteText_of_not_isModerate {magnitude : Nat} (hzero : magnitude ≠ 0)
    (h : ¬ IsModerate magnitude) :
    ∃ exponent, finiteText magnitude = scientific (shortestDigits magnitude) exponent := by
  refine ⟨(decimal (shortest magnitude).digits).length + (shortest magnitude).exponent - 1, ?_⟩
  have hwide := Bool.eq_true_of_not_eq_false (mt (isWide_shortest_iff hzero).mp h)
  rw [finiteText, shortestDigits, if_pos hwide]

end LineScript.Number
