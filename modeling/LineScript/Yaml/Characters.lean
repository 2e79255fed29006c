import LineScript.Text.Utf8

/-!
The characters of a YAML document. The bytes are UTF-8, or UTF-16 when they start with its mark,
and control characters may not occur. A document is read chunk by chunk, and a fault concerns only
a reader that needs the chunk with the fault, so the characters of the chunks before it count.
-/

set_option autoImplicit false
set_option relaxedAutoImplicit false

namespace LineScript.Yaml

open Bytes

/-- The characters that can be read, and whether a fault follows them rather than the end. -/
structure Characters where
  chars : List Char
  isCut : Bool
  deriving DecidableEq, Repr

/-- How characters are encoded. -/
inductive Encoding where
  | utf8
  | utf16 (isLowFirst : Bool)
  deriving DecidableEq, Repr

/-- What bytes start with. -/
inductive Beginning where
  | character (char : Char) (rest : Bytes)
  /-- Some bytes of a character, and no more. -/
  | incomplete
  | fault
  deriving DecidableEq, Repr

/-- Whether a character may occur in a document. -/
def isAllowed (char : Char) : Bool :=
  let code := char.toNat
  code == 0x09 || code == 0x0A || code == 0x0D || (0x20 ≤ code && code ≤ 0x7E) ||
    code == 0x85 || (0xA0 ≤ code && code ≤ 0xFFFD) || 0x10000 ≤ code

/-- The number of bytes that a first byte of UTF-8 announces. -/
def announcedLength? (lead : UInt8) : Option Nat :=
  if lead < 0x80 then some 1
  else if lead < 0xC0 then none
  else if lead < 0xE0 then some 2
  else if lead < 0xF0 then some 3
  else if lead < 0xF8 then some 4
  else none

/-- The character that bytes in UTF-8 start with. -/
def beginningUtf8 (bytes : Bytes) : Beginning :=
  match (bytes.head?.bind announcedLength?) with
  | none => .fault
  | some length =>
    if (bytes.take length).length < length then .incomplete
    else
      match Text.first? bytes with
      | some (char, rest) => .character char rest
      | none => .fault

/-- The number of two bytes. -/
def unitOf (isLowFirst : Bool) (first second : UInt8) : Nat :=
  if isLowFirst then second.toNat * 256 + first.toNat else first.toNat * 256 + second.toNat

/-- The character that bytes in UTF-16 start with. -/
def beginningUtf16 (isLowFirst : Bool) : Bytes → Beginning
  | a :: b :: rest =>
    let unit := unitOf isLowFirst a b
    if 0xDC00 ≤ unit ∧ unit < 0xE000 then .fault
    else if 0xD800 ≤ unit ∧ unit < 0xDC00 then
      match rest with
      | c :: d :: rest =>
        let second := unitOf isLowFirst c d
        if 0xDC00 ≤ second ∧ second < 0xE000 then
          .character (Char.ofNat (0x10000 + (unit - 0xD800) * 1024 + (second - 0xDC00))) rest
        else .fault
      | _ => .incomplete
    else .character (Char.ofNat unit) rest
  | _ => .incomplete

/-- What bytes in an encoding start with. -/
def Encoding.beginning : Encoding → Bytes → Beginning
  | .utf8, bytes => beginningUtf8 bytes
  | .utf16 isLowFirst, bytes => beginningUtf16 isLowFirst bytes

/-- The characters of a chunk of at most `fuel` characters, and the bytes at its end that are part
of one more. -/
def chunkChars (encoding : Encoding) : (fuel : Nat) → Bytes → Option (List Char × Bytes)
  | 0, bytes => some ([], bytes)
  | fuel + 1, bytes =>
    if bytes.isEmpty then some ([], [])
    else
      match encoding.beginning bytes with
      | .fault => none
      | .incomplete => some ([], bytes)
      | .character char rest => do
        guard (isAllowed char)
        let (chars, left) ← chunkChars encoding fuel rest
        return (char :: chars, left)

/-- The number of bytes in a chunk. -/
def chunkLength : Nat := 512

/-- The characters of at most `fuel` chunks: one at hand, and those of the bytes after it. -/
def charactersFrom (encoding : Encoding) : (fuel : Nat) → (chunk later : Bytes) → Characters
  | 0, _, _ => ⟨[], true⟩
  | fuel + 1, chunk, later =>
    match chunkChars encoding chunk.length chunk with
    | none => ⟨[], true⟩
    | some (chars, left) =>
      if later.isEmpty then ⟨chars, !left.isEmpty⟩
      else
        let room := chunkLength - left.length
        let more := charactersFrom encoding fuel (left ++ later.take room) (later.drop room)
        ⟨chars ++ more.chars, more.isCut⟩

/-- The characters of a document, with the encoding that its mark tells. -/
def Characters.ofBytes (document : Bytes) : Characters :=
  let (encoding, chunk) := match document.take chunkLength with
    | 0xFF :: 0xFE :: rest => (.utf16 true, rest)
    | 0xFE :: 0xFF :: rest => (.utf16 false, rest)
    | 0xEF :: 0xBB :: 0xBF :: rest => (Encoding.utf8, rest)
    | chunk => (Encoding.utf8, chunk)
  charactersFrom encoding (document.length + 1) chunk (document.drop chunkLength)

end LineScript.Yaml
