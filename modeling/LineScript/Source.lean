import LineScript.Line
import LineScript.Stream

/-!
Sources, the lines of one stream. Reading keeps the lines that have words and stops at the first
line that is refused, or that is nested more than one level deeper than the line before it, where
blank lines count as well. What was kept before is returned beside the failure.
-/

set_option autoImplicit false
set_option relaxedAutoImplicit false

namespace LineScript

open Bytes

/-- Why reading a source stops early. -/
inductive StopCause where
  | line (error : LineError)
  | tooDeep (scope : Nat)
  | readFailed (message : Bytes)
  deriving DecidableEq, Repr

/-- The line at which reading stops, and why. -/
structure Stop where
  number : Nat
  cause : StopCause
  deriving DecidableEq, Repr

/-- The report of an early stop. -/
def Stop.failure (stop : Stop) (file : Bytes) : Failure :=
  let failure : Failure := match stop.cause with
    | .line error => .single error.diagnostic
    | .tooDeep _ =>
      .single { category := .indentation, message := utf8 "Too many leading tabs" }
    | .readFailed message =>
      .caused { category := .structural, message := utf8 "Read failed" } (.plain message)
  failure.atPosition stop.number file

/-- The lines kept from a source, and where reading stopped if it did so early. -/
structure Source where
  lines : List Line
  stop : Option Stop
  deriving DecidableEq, Repr

/-- The source with a line before it, unless that line has no words. -/
def Source.cons (line : Line) (source : Source) : Source :=
  if line.words.isEmpty then source else { source with lines := line :: source.lines }

/-- Reads lines from `number` on, after a line of the given scope; a stream that fails does so
after them. -/
def readLines (rules : ReadingRules) (failure : Option StreamFailure) (number scope : Nat) :
    List Bytes → Source
  | [] => ⟨[], failure.map fun failure ↦ ⟨number, .readFailed failure.message⟩⟩
  | text :: rest =>
    let reading := readLine rules number text
    match reading.error with
    | some error => ⟨[], some ⟨number, .line error⟩⟩
    | none =>
      if scope + 1 < reading.line.scope then
        ⟨[], some ⟨number, .tooDeep reading.line.scope⟩⟩
      else (readLines rules failure (number + 1) reading.line.scope rest).cons reading.line

/-- Reads a source from a stream. -/
def readSource (rules : ReadingRules) (stream : ByteStream) : Source :=
  readLines rules stream.failure 1 0 stream.lines

/-- One row of a listing: the number of a line, then its words, indented by its scope. -/
def Line.row (line : Line) : Bytes :=
  padded 0x20 4 (integer line.number) ++ utf8 ": " ++
    (List.replicate line.scope (utf8 "    ")).flatten ++ Word.renderAll line.words ++ [0x0A]

/-- The listing of the kept lines, headed by the name of the source if it has one. -/
def Source.listing (source : Source) (file : Bytes) : Bytes :=
  (if file.isEmpty then [] else utf8 "; " ++ file ++ [0x0A]) ++ source.lines.flatMap Line.row

end LineScript
