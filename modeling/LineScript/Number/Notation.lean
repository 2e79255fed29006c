import LineScript.Number.Shortest

/-!
The text of a number. Numbers from one ten-thousandth up to a million are written positionally,
all others with an exponent of at least two digits and its sign. No digit is written that
reading back does not need.
-/

set_option autoImplicit false
set_option relaxedAutoImplicit false

namespace LineScript.Number

open Bytes

/-- Whether a decimal exponent is written out rather than expressed by position. -/
def isWide (exponent : Int) : Bool :=
  exponent < -4 || 6 ≤ exponent

/-- Digits without the zeros at their end. -/
def significant (digits : Bytes) : Bytes :=
  (digits.reverse.dropWhile (· == 0x30)).reverse

/-- Digits with an exponent: one digit, a point before further ones, and the exponent of the
first digit. -/
def scientific (digits : Bytes) (exponent : Int) : Bytes :=
  let fraction := match digits.tail with
    | [] => []
    | rest => 0x2E :: rest
  let sign := if exponent < 0 then 0x2D else 0x2B
  digits.take 1 ++ fraction ++ 0x65 :: sign :: padded 0x30 2 (decimal exponent.natAbs)

/-- Digits of which the first `whole` stand before the point. -/
def positional (digits : Bytes) (whole : Int) : Bytes :=
  if whole ≤ 0 then
    utf8 "0." ++ List.replicate whole.natAbs 0x30 ++ digits
  else
    let count := whole.toNat
    if digits.length ≤ count then digits ++ List.replicate (count - digits.length) 0x30
    else digits.take count ++ 0x2E :: digits.drop count

/-- The text of a finite magnitude other than zero. -/
def finiteText (magnitude : Nat) : Bytes :=
  let shortest := shortest magnitude
  let digits := decimal shortest.digits
  let whole := digits.length + shortest.exponent
  if isWide (whole - 1) then scientific (significant digits) (whole - 1)
  else positional (significant digits) whole

/-- The text of a number. -/
def text (number : Number) : Bytes :=
  let sign := if number.isNegative then [0x2D] else []
  let magnitude := number.magnitude
  if infinity < magnitude then utf8 "NaN"
  else if magnitude = infinity then if number.isNegative then utf8 "-Inf" else utf8 "+Inf"
  else if magnitude = 0 then sign ++ [0x30]
  else sign ++ finiteText magnitude

end LineScript.Number
