import LineScript.Bytes

/-!
UTF-8 as a view of byte strings. A string falls into pieces from left to right: a well-formed
sequence stands for its character, and a byte that starts none stands for itself. No overlong
form, surrogate or code point above U+10FFFF is well-formed.
-/

set_option autoImplicit false
set_option relaxedAutoImplicit false

namespace LineScript.Text

open Bytes

/-- One piece of a byte string: a character, or a byte that starts no well-formed sequence. -/
inductive Piece where
  | character (char : Char)
  | stray (byte : UInt8)
  deriving DecidableEq, Repr

/-- The bytes of a piece. -/
def Piece.bytes : Piece → Bytes
  | .character char => String.utf8EncodeChar char
  | .stray byte => [byte]

/-- A byte that continues a sequence. -/
def isContinuation (byte : UInt8) : Bool :=
  0x80 ≤ byte && byte ≤ 0xBF

/-- The six bits a continuation byte carries. -/
def payload (byte : UInt8) : Nat :=
  byte.toNat % 64

/-- The character of a code point that its sequence must not fall short of. -/
def scalar? (least codePoint : Nat) : Option Char :=
  if least ≤ codePoint ∧ codePoint.isValidChar then some (Char.ofNat codePoint) else none

/-- The character that starts a byte string, with the rest of the string. -/
def first? : Bytes → Option (Char × Bytes)
  | [] => none
  | lead :: rest =>
    if lead < 0x80 then some (Char.ofNat lead.toNat, rest)
    else if lead < 0xC0 then none
    else if lead < 0xE0 then
      match rest with
      | a :: rest =>
        if isContinuation a then
          (scalar? 0x80 (lead.toNat % 32 * 64 + payload a)).map (·, rest)
        else none
      | _ => none
    else if lead < 0xF0 then
      match rest with
      | a :: b :: rest =>
        if isContinuation a && isContinuation b then
          (scalar? 0x800 ((lead.toNat % 16 * 64 + payload a) * 64 + payload b)).map (·, rest)
        else none
      | _ => none
    else if lead < 0xF8 then
      match rest with
      | a :: b :: c :: rest =>
        if isContinuation a && isContinuation b && isContinuation c then
          let high := (lead.toNat % 8 * 64 + payload a) * 64 + payload b
          (scalar? 0x10000 (high * 64 + payload c)).map (·, rest)
        else none
      | _ => none
    else none

/-- What follows the first character is shorter than the whole. -/
theorem length_lt_of_first? {bytes rest : Bytes} {char : Char}
    (h : first? bytes = some (char, rest)) : rest.length < bytes.length := by
  unfold first? at h
  split at h
  · simp at h
  · repeat' split at h
    all_goals
      simp only [Option.some.injEq, Prod.mk.injEq, Option.map_eq_some_iff, reduceCtorEq] at h
    all_goals first
      | (obtain ⟨_, rfl⟩ := h; simp)
      | (obtain ⟨_, _, _, rfl⟩ := h; simp only [List.length_cons]; omega)

/-- The pieces of a byte string, from left to right. -/
def pieces : Bytes → List Piece
  | [] => []
  | byte :: rest =>
    match _h : first? (byte :: rest) with
    | some (char, rest') => .character char :: pieces rest'
    | none => .stray byte :: pieces rest
termination_by bytes => bytes.length
decreasing_by
  · exact length_lt_of_first? ‹first? _ = _›
  · simp

/-- The character of a piece that is one. -/
def Piece.char? : Piece → Option Char
  | .character char => some char
  | .stray _ => none

/-- Whether a byte string is well-formed UTF-8 throughout. -/
def isUtf8 (bytes : Bytes) : Bool :=
  (pieces bytes).all (·.char?.isSome)

/-- The text of a well-formed byte string. -/
def toString? (bytes : Bytes) : Option String :=
  ((pieces bytes).mapM Piece.char?).map String.ofList

end LineScript.Text
