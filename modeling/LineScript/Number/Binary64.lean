import LineScript.Bytes

/-!
Numbers in the binary64 format, known by their 64 bits so that signed zeros and the payloads of
NaNs are kept apart. The magnitude of a number is its bits without the sign. The magnitudes of
finite numbers are ordered as the numbers are, and the magnitude `field * 2 ^ 52 + fraction`
denotes `significand * 2 ^ scale / 2 ^ 1075`. `nearest` rounds a fraction of natural numbers to
a magnitude, a tie going to the even one.
-/

set_option autoImplicit false
set_option relaxedAutoImplicit false

namespace LineScript

-- Powers are those of the core library, also beside other instances.
attribute [local instance (2000)] instPowNat

/-- A number in the binary64 format. -/
structure Number where
  bits : UInt64
  deriving DecidableEq, Repr

namespace Number

/-- The magnitude of infinity, above which the NaNs lie. -/
def infinity : Nat := 2047 * 2 ^ (52 : Nat)

/-- The bits without the sign. -/
def magnitude (number : Number) : Nat :=
  number.bits.toNat % 2 ^ (63 : Nat)

/-- Whether the sign bit is set. -/
def isNegative (number : Number) : Bool :=
  2 ^ (63 : Nat) ≤ number.bits.toNat

/-- The number with a sign and a magnitude. -/
def ofMagnitude (negative : Bool) (magnitude : Nat) : Number :=
  ⟨UInt64.ofNat (if negative then 2 ^ (63 : Nat) + magnitude else magnitude)⟩

/-- The NaN that reading produces. -/
def nan : Number := ⟨0x7FF8000000000001⟩

/-- The binary exponent of a finite magnitude above the least one, counted from one. -/
def scale (magnitude : Nat) : Nat :=
  max 1 (magnitude / 2 ^ (52 : Nat))

/-- The significand of a finite magnitude. The leading bit is implied except in the numbers below
the least normal one. -/
def significand (magnitude : Nat) : Nat :=
  if magnitude < 2 ^ (52 : Nat) then magnitude else magnitude % 2 ^ (52 : Nat) + 2 ^ (52 : Nat)

/-- The quotient rounded to the nearest natural number, a tie going to the even one. -/
def roundedQuotient (numerator denominator : Nat) : Nat :=
  let quotient := numerator / denominator
  let remainder := numerator % denominator
  if 2 * remainder < denominator then quotient
  else if denominator < 2 * remainder then quotient + 1
  else quotient + quotient % 2

/-- The magnitude nearest to a fraction, a tie going to the even one. Fractions beyond the
largest finite number give infinity or more. -/
def nearest (numerator denominator : Nat) : Nat :=
  let scaled := numerator * 2 ^ (1075 : Nat)
  let scale := max 1 ((scaled / denominator).log2 - 52)
  (scale - 1) * 2 ^ (52 : Nat) + roundedQuotient scaled (denominator * 2 ^ scale)

/-- A finite number without what stands after its point. -/
def truncated? (number : Number) : Option Int :=
  let magnitude := number.magnitude
  if magnitude < infinity then
    let whole : Int := (significand magnitude * 2 ^ scale magnitude / 2 ^ (1075 : Nat) : Nat)
    some (if number.isNegative then -whole else whole)
  else none

/-- The natural number of which a finite magnitude is the part `1 / 10 ^ 1075`. -/
def expanded (magnitude : Nat) : Nat :=
  significand magnitude * 2 ^ scale magnitude * 5 ^ (1075 : Nat)

end Number

end LineScript
