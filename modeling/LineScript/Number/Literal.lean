import LineScript.Number.Binary64

/-!
Reading numbers. A literal is a decimal with an optional point and exponent, a hexadecimal with a
binary exponent, or the name of infinity or of no number, with a sign before all but the last. An
underscore may stand between two digits and after the mark of a hexadecimal. The value is rounded
to the nearest number; a literal that rounds beyond the finite numbers is refused.
-/

set_option autoImplicit false
set_option relaxedAutoImplicit false

namespace LineScript.Number

open Bytes

-- Powers are those of the core library, also beside other instances.
attribute [local instance (2000)] instPowNat

/-- Whether every underscore stands after a digit and before one; `afterDigit` tells whether a
digit, or something that counts as one, stands before the text. -/
def underscoresSeparate (isDigit : UInt8 → Bool) (afterDigit : Bool) : Bytes → Bool
  | [] => true
  | byte :: rest =>
    if byte = 0x5F then
      afterDigit && rest.head?.any isDigit && underscoresSeparate isDigit false rest
    else underscoresSeparate isDigit (isDigit byte) rest

/-- A digit or an underscore. -/
def isDigitOr (isDigit : UInt8 → Bool) (byte : UInt8) : Bool :=
  isDigit byte || byte == 0x5F

/-- The digits of a text that may hold underscores. -/
def digitsOf (text : Bytes) : Bytes :=
  text.filter (· != 0x5F)

/-- The number that digits of a base denote. -/
def valueIn (base : Nat) (digits : Bytes) : Nat :=
  digits.foldl (fun total digit ↦ total * base + (hexValue? digit).getD 0) 0

/-- The number that the digits of an exponent denote. No digit counts after the number has
reached ten thousand, which is beyond every finite number. -/
def exponentValue (digits : Bytes) : Nat :=
  digits.foldl (fun total digit ↦
    if total < 10000 then total * 10 + digitValue digit else total) 0

/-- The exponent after its mark: an optional sign, a digit, then digits and underscores up to the
end. -/
def exponent? (text : Bytes) : Option Int :=
  let (negative, text) := match text with
    | 0x2B :: rest => (false, rest)
    | 0x2D :: rest => (true, rest)
    | _ => (false, text)
  if text.head?.any isDigit && text.all (isDigitOr isDigit) then
    let size : Int := exponentValue (digitsOf text)
    some (if negative then -size else size)
  else none

/-- The notation of a literal. -/
structure Radix where
  isDigit : UInt8 → Bool
  base : Nat
  /-- The letter before the exponent, as a small one. -/
  exponentMark : UInt8
  exponentBase : Nat
  /-- By how much the exponent falls for a digit after the point. -/
  exponentsPerDigit : Nat
  /-- Whether a mark announces the notation. An underscore may then stand before the first digit,
  and the exponent must not be missing. -/
  isMarked : Bool

def Radix.decimal : Radix :=
  { isDigit := Bytes.isDigit, base := 10, exponentMark := 0x65, exponentBase := 10
    exponentsPerDigit := 1, isMarked := false }

def Radix.hexadecimal : Radix :=
  { isDigit := Bytes.isHexDigit, base := 16, exponentMark := 0x70, exponentBase := 2
    exponentsPerDigit := 4, isMarked := true }

/-- The magnitude of `digits * base ^ exponent`. -/
def scaledMagnitude (digits base : Nat) (exponent : Int) : Nat :=
  match exponent with
  | .ofNat power => nearest (digits * base ^ power) 1
  | .negSucc power => nearest digits (base ^ (power + 1))

/-- The digits after a point, if one comes next, and what follows them. -/
def Radix.fraction (radix : Radix) : Bytes → Bytes × Bytes
  | 0x2E :: rest =>
    (rest.takeWhile (isDigitOr radix.isDigit), rest.dropWhile (isDigitOr radix.isDigit))
  | rest => ([], rest)

/-- The exponent that follows the digits of a literal up to its end. -/
def Radix.exponentAfter? (radix : Radix) : Bytes → Option Int
  | [] => if radix.isMarked then none else some 0
  | mark :: rest => if lowerByte mark = radix.exponentMark then exponent? rest else none

/-- The magnitude that an unsigned literal denotes. -/
def Radix.magnitude? (radix : Radix) (text : Bytes) : Option Nat :=
  let whole := text.takeWhile (isDigitOr radix.isDigit)
  let (fraction, rest) := radix.fraction (text.dropWhile (isDigitOr radix.isDigit))
  let digits := digitsOf (whole ++ fraction)
  if digits.isEmpty || !underscoresSeparate radix.isDigit radix.isMarked text then none
  else
    (radix.exponentAfter? rest).map fun exponent ↦
      let places : Int := (radix.exponentsPerDigit * (digitsOf fraction).length : Nat)
      let value := valueIn radix.base digits
      if value = 0 then 0 else scaledMagnitude value radix.exponentBase (exponent - places)

/-- The magnitude of an unsigned literal in either notation. -/
def unsignedMagnitude? (text : Bytes) : Option Nat :=
  match text with
  | 0x30 :: mark :: first :: rest =>
    if lowerByte mark = 0x78 then Radix.hexadecimal.magnitude? (first :: rest)
    else Radix.decimal.magnitude? text
  | _ => Radix.decimal.magnitude? text

/-- The sign of a literal and what follows it. -/
def unsigned : Bytes → Option Bool × Bytes
  | 0x2B :: rest => (some false, rest)
  | 0x2D :: rest => (some true, rest)
  | text => (none, text)

/-- The number that a literal denotes. -/
def read? (text : Bytes) : Option Number :=
  let (sign, body) := unsigned text
  let negative := sign.getD false
  let name := lower body
  if name = utf8 "inf" ∨ name = utf8 "infinity" then some (ofMagnitude negative infinity)
  else if sign.isNone ∧ name = utf8 "nan" then some nan
  else
    match unsignedMagnitude? body with
    | some magnitude =>
      if magnitude < infinity then some (ofMagnitude negative magnitude) else none
    | none => none

end LineScript.Number
