import LineScript.Number.Binary64

/-!
The shortest decimal of a finite number: the one with the fewest digits that reads back as the
number, and of these the nearest to it, a tie going to the even digit. Among the decimals with a
given count of digits only the two neighbours of the number can be nearest, so these two are
tried for one digit, two digits and so on. Seventeen digits always suffice; the exact decimal
stands in for a count that no search reaches.
-/

set_option autoImplicit false
set_option relaxedAutoImplicit false

namespace LineScript.Number

-- Powers are those of the core library, also beside other instances.
attribute [local instance (2000)] instPowNat

/-- A decimal `digits * 10 ^ exponent`. -/
structure Decimal where
  digits : Nat
  exponent : Int
  deriving DecidableEq, Repr

/-- How many decimal digits a number has. -/
def digitCount (n : Nat) : Nat :=
  if n < 10 then 1 else digitCount (n / 10) + 1
decreasing_by omega

/-- Whether `expanded / 10 ^ 1075` reads as a magnitude. -/
def readsAs (magnitude expanded : Nat) : Bool :=
  nearest expanded (10 ^ (1075 : Nat)) == magnitude

/-- The decimal with the digits of an expanded number before its last `shift`, or with the next
greater ones, whichever reads as the magnitude and is nearer. -/
def neighbour? (magnitude expanded shift : Nat) : Option Nat :=
  let unit := 10 ^ shift
  let below := expanded / unit
  let remainder := expanded % unit
  let belowReads := readsAs magnitude (below * unit)
  let aboveReads := readsAs magnitude ((below + 1) * unit)
  if belowReads && aboveReads then
    if 2 * remainder < unit then some below
    else if unit < 2 * remainder then some (below + 1)
    else some (below + below % 2)
  else if belowReads then some below
  else if aboveReads then some (below + 1)
  else none

/-- The shortest decimal that reads back as a finite magnitude. -/
def shortest (magnitude : Nat) : Decimal :=
  let expanded := expanded magnitude
  let length := digitCount expanded
  let found := (List.range' 1 17).findSome? fun count ↦
    (neighbour? magnitude expanded (length - count)).map fun digits ↦
      (⟨digits, ((length - count : Nat) : Int) - 1075⟩ : Decimal)
  found.getD ⟨expanded, -1075⟩

end LineScript.Number
