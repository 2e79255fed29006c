import LineScript.Number.Shortest
import LineScript.Proofs.Bytes.Numeral

/-!
The decimal of a number reads back. Rounding to the nearest magnitude depends on the value of a
fraction and not on its terms, and a fraction that is a magnitude rounds to itself. So whichever
decimal the search for a short one ends with, also the exact one that stands in for it, rounds to
the magnitude it was made for.
-/

set_option autoImplicit false
set_option relaxedAutoImplicit false

namespace LineScript.Number

open Bytes

-- Powers are those of the core library, as in the definitions.
attribute [local instance (2000)] instPowNat

/-! ### Rounding -/

theorem roundedQuotient_mul {factor : Nat} (hfactor : 0 < factor) (numerator denominator : Nat) :
    roundedQuotient (factor * numerator) (factor * denominator) =
      roundedQuotient numerator denominator := by
  have hless (first second : Nat) :
      2 * (factor * first) < factor * second ↔ 2 * first < second := by
    rw [Nat.mul_left_comm, Nat.mul_lt_mul_left hfactor]
  have hmore (first second : Nat) :
      factor * first < 2 * (factor * second) ↔ first < 2 * second := by
    rw [Nat.mul_left_comm, Nat.mul_lt_mul_left hfactor]
  unfold roundedQuotient
  simp only [Nat.mul_div_mul_left _ _ hfactor, Nat.mul_mod_mul_left, hless, hmore]

/-- A fraction in which a factor is common rounds as the fraction without it. -/
theorem nearest_mul {factor : Nat} (hfactor : 0 < factor) (numerator denominator : Nat) :
    nearest (factor * numerator) (factor * denominator) = nearest numerator denominator := by
  unfold nearest
  simp only [Nat.mul_assoc, Nat.mul_div_mul_left _ _ hfactor, roundedQuotient_mul hfactor]

@[simp] theorem nearest_zero (denominator : Nat) : nearest 0 denominator = 0 := by
  unfold nearest
  simp only [Nat.zero_mul, Nat.zero_div, Nat.log2_zero, Nat.zero_sub]
  simp [roundedQuotient]

theorem roundedQuotient_exact {unit : Nat} (hunit : 0 < unit) (quotient : Nat) :
    roundedQuotient (quotient * unit) unit = quotient := by
  unfold roundedQuotient
  simp only [Nat.mul_div_cancel _ hunit, Nat.mul_mod_left]
  rw [if_pos (by omega)]

/-- The bits of a significand with its scale. -/
theorem log2_mul_two_pow {n : Nat} (hn : n ≠ 0) (power : Nat) :
    (n * 2 ^ power).log2 = n.log2 + power := by
  rw [Nat.log2_eq_iff (Nat.mul_ne_zero hn (Nat.two_pow_pos power).ne')]
  constructor
  · rw [pow_add]
    exact Nat.mul_le_mul_right _ (Nat.log2_self_le hn)
  · rw [Nat.add_right_comm, pow_add]
    exact Nat.mul_lt_mul_of_pos_right Nat.lt_log2_self (Nat.two_pow_pos power)

theorem log2_significand {magnitude : Nat} (h : 2 ^ (52 : Nat) ≤ magnitude) :
    (significand magnitude).log2 = 52 := by
  rw [significand, if_neg (by omega), Nat.log2_eq_iff (by omega)]
  omega

/-- The scale that rounding chooses for the value of a magnitude is the scale of the magnitude. -/
theorem scale_of_value (magnitude : Nat) :
    max 1 ((significand magnitude * 2 ^ scale magnitude).log2 - 52) = scale magnitude := by
  by_cases hnormal : 2 ^ (52 : Nat) ≤ magnitude
  · have hsignificand : significand magnitude ≠ 0 := by
      intro hzero
      have := log2_significand hnormal
      rw [hzero] at this
      simp at this
    have hscale : 1 ≤ magnitude / 2 ^ (52 : Nat) := by omega
    rw [log2_mul_two_pow hsignificand, log2_significand hnormal, scale]
    omega
  · have hscale : scale magnitude = 1 := by
      rw [scale]
      omega
    have hsmall : significand magnitude * 2 ^ scale magnitude < 2 ^ (53 : Nat) := by
      rw [hscale, significand, if_pos (by omega)]
      omega
    have hlog : (significand magnitude * 2 ^ scale magnitude).log2 < 53 := by
      by_cases hzero : significand magnitude * 2 ^ scale magnitude = 0
      · rw [hzero]
        simp
      · exact (Nat.log2_lt hzero).mpr hsmall
    omega

theorem magnitude_eq_scale_significand (magnitude : Nat) :
    (scale magnitude - 1) * 2 ^ (52 : Nat) + significand magnitude = magnitude := by
  unfold scale significand
  split_ifs <;> omega

/-- The value of a magnitude rounds to it. -/
theorem nearest_value (magnitude : Nat) :
    nearest (significand magnitude * 2 ^ scale magnitude) (2 ^ (1075 : Nat)) = magnitude := by
  have hpower := Nat.two_pow_pos 1075
  unfold nearest
  generalize 2 ^ (1075 : Nat) = unit at hpower ⊢
  simp only [Nat.mul_div_cancel _ hpower, scale_of_value]
  rw [Nat.mul_comm (significand magnitude * _), roundedQuotient_mul hpower,
    roundedQuotient_exact (Nat.two_pow_pos _), magnitude_eq_scale_significand]

theorem ten_pow (power : Nat) : 10 ^ power = 5 ^ power * 2 ^ power := by
  rw [← Nat.mul_pow]

theorem nearest_expanded (magnitude : Nat) :
    nearest (expanded magnitude) (10 ^ (1075 : Nat)) = magnitude := by
  have hfactor (power : Nat) : 0 < 5 ^ power := Nat.pow_pos (by omega)
  have hcommon :=
    nearest_mul (hfactor 1075) (significand magnitude * 2 ^ scale magnitude) (2 ^ (1075 : Nat))
  rw [expanded, ten_pow 1075, Nat.mul_comm (significand magnitude * _), hcommon, nearest_value]

/-! ### The search -/

theorem readsAs_iff (magnitude expanded : Nat) :
    readsAs magnitude expanded = true ↔ nearest expanded (10 ^ (1075 : Nat)) = magnitude := by
  rw [readsAs, beq_iff_eq]

/-- A neighbour that is found reads as the magnitude, and it is the decimal below the number or the
one above. -/
theorem neighbour?_eq_some {magnitude expanded shift digits : Nat}
    (h : neighbour? magnitude expanded shift = some digits) :
    readsAs magnitude (digits * 10 ^ shift) = true ∧
      (digits = expanded / 10 ^ shift ∨ digits = expanded / 10 ^ shift + 1) := by
  unfold neighbour? at h
  dsimp only at h
  split_ifs at h with hboth hbelow habove hfirst hsecond
  · obtain rfl := Option.some.inj h
    exact ⟨(Bool.and_eq_true _ _ ▸ hboth).1, Or.inl rfl⟩
  · obtain rfl := Option.some.inj h
    exact ⟨(Bool.and_eq_true _ _ ▸ hboth).2, Or.inr rfl⟩
  · obtain rfl := Option.some.inj h
    rw [Bool.and_eq_true] at hboth
    rcases Nat.mod_two_eq_zero_or_one (expanded / 10 ^ shift) with heven | hodd
    · rw [heven]
      exact ⟨hboth.1, Or.inl rfl⟩
    · rw [hodd]
      exact ⟨hboth.2, Or.inr rfl⟩
  · obtain rfl := Option.some.inj h
    exact ⟨hfirst, Or.inl rfl⟩
  · obtain rfl := Option.some.inj h
    exact ⟨hsecond, Or.inr rfl⟩

theorem digitCount_pos (n : Nat) : 0 < digitCount n := by
  rw [digitCount]
  split_ifs
  · exact Nat.one_pos
  · exact Nat.succ_pos _

/-- The decimal that the search ends with is, in a unit `10 ^ shift / 10 ^ 1075`, the number without
what is below the unit or one unit more, and it rounds to the number. -/
theorem shortest_cases (magnitude : Nat) :
    ∃ shift < digitCount (expanded magnitude),
      (shortest magnitude).exponent = (shift : Int) - 1075 ∧
      nearest ((shortest magnitude).digits * 10 ^ shift) (10 ^ (1075 : Nat)) = magnitude ∧
      ((shortest magnitude).digits = expanded magnitude / 10 ^ shift ∨
        (shortest magnitude).digits = expanded magnitude / 10 ^ shift + 1) := by
  have hpos := digitCount_pos (expanded magnitude)
  rw [shortest]
  cases hfound : (List.range' 1 17).findSome? fun count ↦
      (neighbour? magnitude (expanded magnitude)
        (digitCount (expanded magnitude) - count)).map fun digits ↦
          (⟨digits, ((digitCount (expanded magnitude) - count : Nat) : Int) - 1075⟩ : Decimal) with
  | none =>
    refine ⟨0, hpos, rfl, ?_, Or.inl ?_⟩
    · rw [Option.getD_none, Nat.pow_zero, Nat.mul_one, nearest_expanded]
    · rw [Option.getD_none, Nat.pow_zero, Nat.div_one]
  | some decimal =>
    obtain ⟨count, hcount, hdecimal⟩ := List.exists_of_findSome?_eq_some hfound
    obtain ⟨digits, hdigits, rfl⟩ := Option.map_eq_some_iff.mp hdecimal
    obtain ⟨hreads, hcases⟩ := neighbour?_eq_some hdigits
    have hone : 1 ≤ count := (List.mem_range'_1.mp hcount).1
    exact ⟨_, Nat.sub_lt hpos hone, rfl, (readsAs_iff _ _).mp hreads, hcases⟩

/-- A decimal is a whole number of units `10 ^ shift / 10 ^ 1075`, rounds to a magnitude, and is no
longer than the exact decimal of the number. -/
def Restores (magnitude : Nat) (decimal : Decimal) : Prop :=
  ∃ shift : Nat, decimal.exponent = (shift : Int) - 1075 ∧
    nearest (decimal.digits * 10 ^ shift) (10 ^ (1075 : Nat)) = magnitude ∧
    decimal.digits ≤ expanded magnitude + 1 ∧ shift ≤ digitCount (expanded magnitude)

theorem restores_shortest (magnitude : Nat) : Restores magnitude (shortest magnitude) := by
  obtain ⟨shift, hshift, hexponent, hnearest, hdigits⟩ := shortest_cases magnitude
  have hle : expanded magnitude / 10 ^ shift ≤ expanded magnitude := Nat.div_le_self _ _
  refine ⟨shift, hexponent, hnearest, ?_, Nat.le_of_lt hshift⟩
  rcases hdigits with hbelow | habove
  · rw [hbelow]
    exact Nat.le_succ_of_le hle
  · rw [habove]
    exact Nat.succ_le_succ hle

/-! ### Length -/

theorem length_decimal (n : Nat) : (decimal n).length = digitCount n := by
  induction n using Nat.strong_induction_on with
  | _ n ih =>
    rw [decimal, digitCount]
    split_ifs with hsmall
    · rfl
    · rw [List.length_append, ih (n / 10) (by omega)]
      rfl

theorem significand_lt (magnitude : Nat) : significand magnitude < 2 ^ (53 : Nat) := by
  unfold significand
  split_ifs <;> omega

theorem succ_lt_ten_pow (power : Nat) {n : Nat} (h : n ≤ 10 ^ power) :
    n + 1 < 10 ^ (power + 1) := by
  have hone : 0 < 10 ^ power := Nat.pow_pos (by omega)
  rw [Nat.pow_succ]
  omega

/-- The exact decimal of a finite number has fewer than 3176 digits. -/
theorem expanded_lt {magnitude : Nat} (h : magnitude < infinity) :
    expanded magnitude + 1 < 10 ^ (3174 + 1 : Nat) := by
  have hscale : scale magnitude ≤ 2046 := by
    unfold infinity at h
    unfold scale
    omega
  have hsignificand : significand magnitude ≤ 10 ^ (53 : Nat) :=
    Nat.le_trans (significand_lt magnitude).le (Nat.pow_le_pow_left (by omega) _)
  -- The exponents are variables here, so that no power of them is computed.
  have hbound (a b c sum : Nat) (ha : significand magnitude ≤ 10 ^ a) (hb : scale magnitude ≤ b)
      (h : sum = a + b + c) : significand magnitude * 2 ^ scale magnitude * 5 ^ c ≤ 10 ^ sum :=
    calc significand magnitude * 2 ^ scale magnitude * 5 ^ c
        ≤ 10 ^ a * 10 ^ scale magnitude * 10 ^ c :=
          Nat.mul_le_mul (Nat.mul_le_mul ha (Nat.pow_le_pow_left (by omega) _))
            (Nat.pow_le_pow_left (by omega) _)
      _ ≤ 10 ^ a * 10 ^ b * 10 ^ c :=
          Nat.mul_le_mul_right _ (Nat.mul_le_mul_left _ (Nat.pow_le_pow_right (by omega) hb))
      _ = 10 ^ sum := by rw [h, Nat.pow_add, Nat.pow_add]
  exact succ_lt_ten_pow 3174 (hbound 53 2046 1075 3174 hsignificand hscale rfl)

theorem Restores.length_le {magnitude : Nat} {number : Decimal} (h : Restores magnitude number)
    (hfinite : magnitude < infinity) : (decimal number.digits).length ≤ 3175 := by
  obtain ⟨shift, -, -, hdigits, -⟩ := h
  exact length_decimal_le (Nat.lt_of_le_of_lt hdigits (expanded_lt hfinite))

theorem digitCount_expanded_le {magnitude : Nat} (hfinite : magnitude < infinity) :
    digitCount (expanded magnitude) ≤ 3175 := by
  rw [← length_decimal]
  exact length_decimal_le (Nat.lt_of_succ_lt (expanded_lt hfinite))

end LineScript.Number
