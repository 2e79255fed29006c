import LineScript.Bytes

/-!
Input streams. A stream delivers its bytes and then ends or fails. Its lines are the pieces
between newlines, each without a carriage return at its end; a last piece without a newline
counts when it is not empty and the stream just ends, since a failing stream may have cut it
short.
-/

set_option autoImplicit false
set_option relaxedAutoImplicit false

namespace LineScript

/-- Why a stream fails. -/
structure StreamFailure where
  message : Bytes
  /-- The failure is that the bytes of the stream ended too early. -/
  endsEarly : Bool := false
  deriving DecidableEq, Repr

/-- The bytes of a stream, and the failure that follows them if one does. -/
structure ByteStream where
  bytes : Bytes
  failure : Option StreamFailure := none
  deriving DecidableEq, Repr

/-- The pieces that a newline ends, and what follows the last newline. -/
def cutLines : Bytes → List Bytes × Bytes
  | [] => ([], [])
  | byte :: rest =>
    match cutLines rest with
    | (lines, tail) =>
      if byte = 0x0A then ([] :: lines, tail)
      else
        match lines with
        | [] => ([], byte :: tail)
        | line :: more => ((byte :: line) :: more, tail)

/-- The line without one carriage return at its end. -/
def withoutReturn (line : Bytes) : Bytes :=
  if line.getLast? = some 0x0D then line.dropLast else line

/-- The lines of a stream. -/
def ByteStream.lines (stream : ByteStream) : List Bytes :=
  let (ended, tail) := cutLines stream.bytes
  let last := if stream.failure.isNone ∧ !tail.isEmpty then [tail] else []
  (ended ++ last).map withoutReturn

end LineScript
