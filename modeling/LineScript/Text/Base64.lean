import LineScript.Bytes

/-!
Bytes written in 64 characters. Three bytes take four characters, and equals signs fill up the last
four where one or two bytes are missing. Line ends between the characters do not count.
-/

set_option autoImplicit false
set_option relaxedAutoImplicit false

namespace LineScript.Text

open Bytes

/-- The six bits of a character. -/
def sixBits? (byte : UInt8) : Option Nat :=
  if isCapital byte then some (byte.toNat - 0x41)
  else if isSmall byte then some (byte.toNat - 0x61 + 26)
  else if isDigit byte then some (byte.toNat - 0x30 + 52)
  else if byte = 0x2B then some 62
  else if byte = 0x2F then some 63
  else none

/-- The bytes of groups of four characters. -/
def groupedBytes? : Bytes → Option Bytes
  | [] => some []
  | [a, b, 0x3D, 0x3D] => do
    let bits := (← sixBits? a) * 64 + (← sixBits? b)
    return [UInt8.ofNat (bits / 16)]
  | [a, b, c, 0x3D] => do
    let bits := ((← sixBits? a) * 64 + (← sixBits? b)) * 64 + (← sixBits? c)
    return [UInt8.ofNat (bits / 1024), UInt8.ofNat (bits / 4)]
  | a :: b :: c :: d :: rest => do
    let high := (← sixBits? a) * 64 + (← sixBits? b)
    let bits := (high * 64 + (← sixBits? c)) * 64 + (← sixBits? d)
    let more ← groupedBytes? rest
    return UInt8.ofNat (bits / 65536) :: UInt8.ofNat (bits / 256) :: UInt8.ofNat bits :: more
  | _ => none

/-- The bytes that a text in 64 characters stands for. -/
def base64? (text : Bytes) : Option Bytes :=
  groupedBytes? (text.filter fun byte ↦ byte != 0x0A && byte != 0x0D)

end LineScript.Text
