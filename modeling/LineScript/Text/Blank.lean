import LineScript.Text.Utf8

/-!
White space and the fields between it. A blank is one of the 25 characters with the Unicode
property White_Space. Only characters can be blank: a byte 0x85 or 0xA0 that belongs to no
well-formed sequence separates nothing.
-/

set_option autoImplicit false
set_option relaxedAutoImplicit false

namespace LineScript.Text

/-- A white-space character. -/
def isBlank (char : Char) : Bool :=
  let code := char.toNat
  (9 ≤ code && code ≤ 13) || code == 0x20 || code == 0x85 || code == 0xA0 || code == 0x1680 ||
    (0x2000 ≤ code && code ≤ 0x200A) || code == 0x2028 || code == 0x2029 || code == 0x202F ||
    code == 0x205F || code == 0x3000

/-- A piece that is a white-space character. -/
def Piece.isBlank : Piece → Bool
  | .character char => Text.isBlank char
  | .stray _ => false

/-- Whether white space occurs in a byte string. -/
def hasBlank (bytes : Bytes) : Bool :=
  (pieces bytes).any Piece.isBlank

/-- A name that a table may hold: not empty and without white space. -/
def isName (bytes : Bytes) : Bool :=
  !bytes.isEmpty && !hasBlank bytes

/-- Splits pieces into the maximal runs without blanks; `field` is the run being read. -/
def fieldsFrom (field : Bytes) : List Piece → List Bytes
  | [] => if field.isEmpty then [] else [field]
  | piece :: rest =>
    if piece.isBlank then
      if field.isEmpty then fieldsFrom [] rest else field :: fieldsFrom [] rest
    else fieldsFrom (field ++ piece.bytes) rest

/-- The maximal runs without white space, in order. -/
def fields (bytes : Bytes) : List Bytes :=
  fieldsFrom [] (pieces bytes)

end LineScript.Text
