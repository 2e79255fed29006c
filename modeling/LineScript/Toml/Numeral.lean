import LineScript.Calendar
import LineScript.Number.Literal

/-!
Numbers, dates and times in TOML. An integer is decimal, or has one of three other bases that its
beginning names, and lies within 64 bits. An underscore may stand between two digits, and no zero
may lead a decimal number. A date and a time have a letter or a space between them, and a zone may
follow both.
-/

set_option autoImplicit false
set_option relaxedAutoImplicit false

namespace LineScript.Toml

open Bytes

-- Powers are those of the core library, also beside other instances.
attribute [local instance (2000)] instPowNat

/-- The digits of a number without the underscores, each of which must stand between two
digits. -/
def separatedDigits? (isDigit : UInt8 → Bool) (text : Bytes) : Option Bytes :=
  let digits := Number.digitsOf text
  if !digits.isEmpty && digits.all isDigit && Number.underscoresSeparate isDigit false text then
    some digits
  else none

/-- A decimal integer without its sign. No zero may lead it. -/
def unsignedInteger? (text : Bytes) : Option Nat := do
  let digits ← separatedDigits? isDigit text
  if digits.head? = some 0x30 ∧ text.length ≠ 1 then none else some (value digits)

/-- An integer within 64 bits. Only decimal ones have a sign. -/
def integer? (text : Bytes) : Option Int := do
  let isOctal (byte : UInt8) := 0x30 ≤ byte && byte ≤ 0x37
  let isBinary (byte : UInt8) := byte == 0x30 || byte == 0x31
  let integer : Int ← match text with
    | 0x30 :: 0x78 :: rest =>
      (separatedDigits? isHexDigit rest).map fun digits ↦ (Number.valueIn 16 digits : Int)
    | 0x30 :: 0x6F :: rest =>
      (separatedDigits? isOctal rest).map fun digits ↦ (Number.valueIn 8 digits : Int)
    | 0x30 :: 0x62 :: rest =>
      (separatedDigits? isBinary rest).map fun digits ↦ (Number.valueIn 2 digits : Int)
    | 0x2B :: rest => (unsignedInteger? rest).map fun n ↦ (n : Int)
    | 0x2D :: rest => (unsignedInteger? rest).map fun n ↦ -(n : Int)
    | _ => (unsignedInteger? text).map fun n ↦ (n : Int)
  if -(2 ^ (63 : Nat)) ≤ integer ∧ integer < 2 ^ (63 : Nat) then some integer else none

/-- Whether every point stands before a digit. -/
def pointsLead : Bytes → Bool
  | [] => true
  | byte :: rest => (byte != 0x2E || rest.head?.any isDigit) && pointsLead rest

/-- Whether a word is a number that is no integer. -/
def isReal (word : Bytes) : Bool :=
  let unsigned := (Number.unsigned word).2
  let isPart (byte : UInt8) :=
    isDigit byte || byte == 0x5F || byte == 0x2E || lowerByte byte == 0x65 || byte == 0x2B ||
      byte == 0x2D
  if unsigned = utf8 "inf" ∨ unsigned = utf8 "nan" then true
  else
    unsigned.all isPart && unsigned.any (fun byte ↦ byte == 0x2E || lowerByte byte == 0x65) &&
      unsigned.head?.any isDigit &&
      !(unsigned.head? == some 0x30 && unsigned.tail.head?.any (Number.isDigitOr isDigit)) &&
      pointsLead unsigned && (Number.read? word).isSome

/-- A byte that a date or a time may hold. -/
def isMomentByte (byte : UInt8) : Bool :=
  isDigit byte || (utf8 "-:.+TtZz ").contains byte

/-- Whether a text starts like a date or a time: with digits and a hyphen or a colon. -/
def startsMoment (text : Bytes) : Bool :=
  isDigit (text.headD 0) && (text.dropWhile isDigit).head?.any fun byte ↦
    byte == 0x2D || byte == 0x3A

/-- Whether a text is a date, a time, or both with or without a zone. -/
def isMoment (text : Bytes) : Bool :=
  let text := text.map fun byte ↦
    if byte = 0x7A then 0x5A else if byte = 0x74 ∨ byte = 0x20 then 0x54 else byte
  match Calendar.skipDate? 2 text with
  | some [] => true
  | some (0x54 :: time) =>
    match Calendar.skipTime? 2 time with
    | some rest => rest.isEmpty || Calendar.isZone rest
    | none => false
  | some _ => false
  | none => Calendar.skipTime? 2 text == some []

end LineScript.Toml
