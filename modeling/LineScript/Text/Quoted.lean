import LineScript.Text.Printable

/-!
Quoted text. Quoting shows any byte string on one line between double quotes: printable
characters stand for themselves, the usual control characters have a letter after a backslash,
and everything else is written by its number, two digits for a byte, four or eight for a
character.
-/

set_option autoImplicit false
set_option relaxedAutoImplicit false

namespace LineScript.Text

open Bytes

/-- The letter that follows the backslash for a control character that has one. -/
def escapeLetter? (code : Nat) : Option UInt8 :=
  match code with
  | 0x07 => some 0x61
  | 0x08 => some 0x62
  | 0x0C => some 0x66
  | 0x0A => some 0x6E
  | 0x0D => some 0x72
  | 0x09 => some 0x74
  | 0x0B => some 0x76
  | _ => none

/-- A character inside quotes. -/
def quotedChar (char : Char) : Bytes :=
  let code := char.toNat
  if code = 0x22 ∨ code = 0x5C then 0x5C :: String.utf8EncodeChar char
  else if isPrintable char then String.utf8EncodeChar char
  else
    match escapeLetter? code with
    | some letter => [0x5C, letter]
    | none =>
      if code < 0x80 then utf8 "\\x" ++ hex 2 code
      else if code < 0x10000 then utf8 "\\u" ++ hex 4 code
      else utf8 "\\U" ++ hex 8 code

/-- A piece inside quotes. -/
def Piece.quoted : Piece → Bytes
  | .character char => quotedChar char
  | .stray byte => utf8 "\\x" ++ hex 2 byte.toNat

/-- A byte string between double quotes. -/
def quote (bytes : Bytes) : Bytes :=
  0x22 :: (pieces bytes).flatMap Piece.quoted ++ [0x22]

end LineScript.Text
