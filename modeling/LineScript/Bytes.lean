/-!
Byte strings. Source lines, names and text constants are sequences of bytes that need not be
valid UTF-8, so every text of the library is a list of bytes, and a literal text enters through
its UTF-8 encoding. This module holds the notions on single bytes and the decimal numerals that
the other modules share.
-/

set_option autoImplicit false
set_option relaxedAutoImplicit false

namespace LineScript

/-- A string of bytes of any content. -/
abbrev Bytes := List UInt8

/-- The UTF-8 encoding of a text. -/
def utf8 (text : String) : Bytes :=
  text.toList.flatMap String.utf8EncodeChar

namespace Bytes

/-- An ASCII decimal digit. -/
def isDigit (byte : UInt8) : Bool :=
  0x30 ≤ byte && byte ≤ 0x39

/-- An ASCII capital letter. -/
def isCapital (byte : UInt8) : Bool :=
  0x41 ≤ byte && byte ≤ 0x5A

/-- An ASCII small letter. -/
def isSmall (byte : UInt8) : Bool :=
  0x61 ≤ byte && byte ≤ 0x7A

/-- The small letter of an ASCII capital; every other byte stays. -/
def lowerByte (byte : UInt8) : UInt8 :=
  if isCapital byte then byte + 0x20 else byte

/-- Lowers every ASCII capital letter. -/
def lower (bytes : Bytes) : Bytes :=
  bytes.map lowerByte

/-- The value of a decimal digit. -/
def digitValue (byte : UInt8) : Nat :=
  byte.toNat - 0x30

/-- The decimal numeral of a natural number, without leading zeros. -/
def decimal (n : Nat) : Bytes :=
  if n < 10 then [UInt8.ofNat (0x30 + n)]
  else decimal (n / 10) ++ [UInt8.ofNat (0x30 + n % 10)]
decreasing_by omega

/-- The decimal numeral of an integer, with a minus sign below zero. -/
def integer : Int → Bytes
  | .ofNat n => decimal n
  | .negSucc n => 0x2D :: decimal (n + 1)

/-- The number a list of decimal digits denotes. -/
def value (digits : Bytes) : Nat :=
  digits.foldl (fun total digit ↦ total * 10 + digitValue digit) 0

/-- The digit of a number below sixteen, in small letters above nine. -/
def hexDigit (n : Nat) : UInt8 :=
  if n < 10 then UInt8.ofNat (0x30 + n) else UInt8.ofNat (0x57 + n)

/-- The hexadecimal numeral of a number with exactly `width` digits. -/
def hex : (width : Nat) → Nat → Bytes
  | 0, _ => []
  | width + 1, n => hex width (n / 16) ++ [hexDigit (n % 16)]

/-- The value of a hexadecimal digit in either case. -/
def hexValue? (byte : UInt8) : Option Nat :=
  if isDigit byte then some (byte.toNat - 0x30)
  else if 0x61 ≤ byte && byte ≤ 0x66 then some (byte.toNat - 0x57)
  else if 0x41 ≤ byte && byte ≤ 0x46 then some (byte.toNat - 0x37)
  else none

/-- A hexadecimal digit in either case. -/
def isHexDigit (byte : UInt8) : Bool :=
  (hexValue? byte).isSome

/-- Fills up on the left until the string has `width` bytes. -/
def padded (fill : UInt8) (width : Nat) (bytes : Bytes) : Bytes :=
  List.replicate (width - bytes.length) fill ++ bytes

/-- The strings put one after the other with `separator` between neighbours. -/
def joined (separator : Bytes) : List Bytes → Bytes
  | [] => []
  | [last] => last
  | first :: rest => first ++ separator ++ joined separator rest

/-- The byte order of two strings: the first difference decides, and a beginning comes first. -/
def le (first second : Bytes) : Bool :=
  decide (first ≤ second)

/-- The beginning of at most `length` bytes, marked by three dots where something is cut off. -/
def excerpt (length : Nat) (bytes : Bytes) : Bytes :=
  if bytes.length ≤ length then bytes else bytes.take length ++ utf8 "..."

end Bytes

end LineScript
