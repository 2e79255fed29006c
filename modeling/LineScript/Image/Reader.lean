import LineScript.Image.Writer
import LineScript.Number.Literal
import LineScript.Stream

/-!
Reading images. Each reader takes the bytes that are left and returns what it read with the bytes
after it. The header announces how much of everything follows, so an image that ends early is cut
short, and bytes after its last cell are a fault as well. A stream that fails is not blamed on the
image, unless what came before is already malformed, or the failure is that the bytes ended too
early and that was among the cells. An image that was read is verified.
-/

set_option autoImplicit false
set_option relaxedAutoImplicit false

namespace LineScript

open Bytes

-- Powers are those of the core library, also beside other instances.
attribute [local instance (2000)] instPowNat

/-- Why bytes are no image. -/
inductive ReadError where
  | badMark
  | badVersion (text : Bytes)
  | unsupportedVersion (version : Nat)
  | badCounts (expected : Nat) (line : Bytes)
  | badCount (text : Bytes)
  | countTooLarge (count : Nat)
  | storageName (name : Bytes)
  | functionLine (line : Bytes)
  | duplicateFunction (name : Bytes)
  | badNumber (line : Bytes)
  | textTooLong
  | trailingBytes
  | truncated
  | readFailed (message : Bytes)
  | unverified (fault : ImageFault)
  deriving DecidableEq, Repr

/-- The report of bytes that are no image. -/
def ReadError.failure : ReadError → Failure
  | .badMark => .single { category := .format, message := utf8 "Bad assembly" }
  | .badVersion text => malformedFailure (utf8 "version " ++ Text.quote text)
  | .unsupportedVersion version =>
    .noted (.single { category := .format, message := utf8 "Unsupported assembly version" })
      (decimal version ++ utf8 ", newest supported is " ++ decimal imageVersion)
  | .badCounts expected line =>
    malformedFailure (utf8 "expected " ++ decimal expected ++ utf8 " counts, got " ++
      Text.quote line)
  | .badCount text => malformedFailure (utf8 "count " ++ Text.quote text)
  | .countTooLarge count =>
    malformedFailure (utf8 "count " ++ decimal count ++ utf8 " exceeds " ++ decimal maxCount)
  | .storageName name => nameFailure (utf8 "storage") name
  | .functionLine line => malformedFailure (utf8 "function reference " ++ Text.quote line)
  | .duplicateFunction name => malformedFailure (utf8 "duplicate function " ++ Text.quote name)
  | .badNumber line => malformedFailure (utf8 "numeric constant " ++ Text.quote line)
  | .textTooLong =>
    malformedFailure (utf8 "text constant longer than " ++ decimal imageTextLimit ++
      utf8 " bytes")
  | .trailingBytes => malformedFailure (utf8 "trailing bytes after the program section")
  | .truncated => .single { category := .structural, message := utf8 "Truncated assembly" }
  | .readFailed message =>
    .caused { category := .structural, message := utf8 "Read failed" } (.plain message)
  | .unverified fault => fault.failure

/-! ### Parts of an image

The error `ended` is the one for bytes that end too early. -/

/-- Reads a line, without its newline. -/
def takeLine (ended : ReadError) : Bytes → Except ReadError (Bytes × Bytes)
  | [] => .error ended
  | byte :: rest =>
    if byte = 0x0A then .ok ([], rest)
    else
      match takeLine ended rest with
      | .ok (line, rest) => .ok (byte :: line, rest)
      | .error error => .error error

/-- Reads one thing after the other, so many times. -/
def takeMany {α : Type} (take : Bytes → Except ReadError (α × Bytes)) :
    Nat → Bytes → Except ReadError (List α × Bytes)
  | 0, bytes => .ok ([], bytes)
  | count + 1, bytes => do
    let (first, bytes) ← take bytes
    let (rest, bytes) ← takeMany take count bytes
    return (first :: rest, bytes)

/-- The number of a decimal numeral below `2 ^ 32`. -/
def natural32? (text : Bytes) : Option Nat :=
  if text.isEmpty || !text.all isDigit then none
  else
    let number := value text
    if number < 2 ^ (32 : Nat) then some number else none

/-- A count of the header. -/
def countOf (text : Bytes) : Except ReadError Nat :=
  match natural32? text with
  | none => .error (.badCount text)
  | some count => if maxCount < count then .error (.countTooLarge count) else .ok count

/-- What the header says about the sizes of sections and tables. -/
structure TableSizes where
  init : Nat
  program : Nat
  storage : Nat
  functions : Nat
  deriving DecidableEq, Repr

/-- What the header says about the sizes of the pools. -/
structure PoolSizes where
  numbers : Nat
  texts : Nat
  deriving DecidableEq, Repr

def takeTableSizes (ended : ReadError) (bytes : Bytes) :
    Except ReadError (TableSizes × Bytes) := do
  let (line, bytes) ← takeLine ended bytes
  match Text.fields line with
  | [init, program, storage, functions] =>
    let init ← countOf init
    let program ← countOf program
    let storage ← countOf storage
    let functions ← countOf functions
    return (⟨init, program, storage, functions⟩, bytes)
  | _ => .error (.badCounts 4 line)

def takePoolSizes (ended : ReadError) (bytes : Bytes) : Except ReadError (PoolSizes × Bytes) := do
  let (line, bytes) ← takeLine ended bytes
  match Text.fields line with
  | [numbers, texts] =>
    let numbers ← countOf numbers
    let texts ← countOf texts
    return (⟨numbers, texts⟩, bytes)
  | _ => .error (.badCounts 2 line)

def takeRamSizes (ended : ReadError) (bytes : Bytes) : Except ReadError (RamSizes × Bytes) := do
  let (line, bytes) ← takeLine ended bytes
  match Text.fields line with
  | [numericVariables, textVariables, dataReferences, numericArrays, textArrays] =>
    let numericVariables ← countOf numericVariables
    let textVariables ← countOf textVariables
    let dataReferences ← countOf dataReferences
    let numericArrays ← countOf numericArrays
    let textArrays ← countOf textArrays
    return (
      { numericVariables := UInt32.ofNat numericVariables
        textVariables := UInt32.ofNat textVariables
        numericArrays := UInt32.ofNat numericArrays
        textArrays := UInt32.ofNat textArrays
        dataReferences := UInt32.ofNat dataReferences }, bytes)
  | _ => .error (.badCounts 5 line)

/-- Reads the name of a storage variable or array. -/
def takeStorage (ended : ReadError) (bytes : Bytes) : Except ReadError (Bytes × Bytes) := do
  let (name, bytes) ← takeLine ended bytes
  if Text.isName name then return (name, bytes) else .error (.storageName name)

/-- Reads functions into a table. -/
def takeFunctions (ended : ReadError) (table : FunctionTable) :
    Nat → Bytes → Except ReadError (FunctionTable × Bytes)
  | 0, bytes => .ok (table, bytes)
  | count + 1, bytes => do
    let (line, bytes) ← takeLine ended bytes
    match Text.fields line with
    | [name, address] =>
      let address ← countOf address
      match table.declare? name (UInt32.ofNat address) with
      | some table => takeFunctions ended table count bytes
      | none => .error (.duplicateFunction name)
    | _ => .error (.functionLine line)

/-- Reads a number. -/
def takeNumber (ended : ReadError) (bytes : Bytes) : Except ReadError (Number × Bytes) := do
  let (line, bytes) ← takeLine ended bytes
  match Number.read? line with
  | some number => return (number, bytes)
  | none => .error (.badNumber line)

/-- Reads a text up to its zero byte; `room` bytes are left for it. -/
def takeTextWithin (ended : ReadError) :
    (room : Nat) → Bytes → Except ReadError (Bytes × Bytes)
  | _, [] => .error ended
  | room, byte :: rest =>
    if byte = 0 then .ok ([], rest)
    else
      match room with
      | 0 => .error .textTooLong
      | room + 1 =>
        match takeTextWithin ended room rest with
        | .ok (text, rest) => .ok (byte :: text, rest)
        | .error error => .error error

/-- Reads a text. -/
def takeText (ended : ReadError) (bytes : Bytes) : Except ReadError (Bytes × Bytes) :=
  takeTextWithin ended imageTextLimit bytes

/-- Reads a cell. -/
def takeCell (ended : ReadError) : Bytes → Except ReadError (Cell × Bytes)
  | a :: b :: c :: d :: rest =>
    .ok (Cell.ofRaw (UInt32.ofNat (a.toNat + b.toNat * 2 ^ (8 : Nat) +
      c.toNat * 2 ^ (16 : Nat) + d.toNat * 2 ^ (24 : Nat))), rest)
  | _ => .error ended

/-- Reads the mark and the version. A line that the end of the bytes cuts short is still looked
at for the mark. -/
def takeVersion (stream : ByteStream) (ended : ReadError) : Except ReadError (Unit × Bytes) :=
  let found := takeLine ended stream.bytes
  let line := match found with
    | .ok (line, _) => line
    | .error _ => stream.bytes
  let isSpace (byte : UInt8) := byte == 0x20
  match found, stream.failure with
  | .error error, some _ => .error error
  | _, _ =>
    if line.takeWhile (!isSpace ·) ≠ imageMark then .error .badMark
    else do
      let (_, bytes) ← found
      let text := (line.dropWhile (!isSpace ·)).drop 1
      match natural32? text with
      | none => .error (.badVersion text)
      | some version =>
        if imageVersion < version then .error (.unsupportedVersion version) else return ((), bytes)

/-! ### Whole images -/

/-- Reads all that goes before the code: the sizes of the sections, and the image without them. -/
def takeTables (ended : ReadError) (bytes : Bytes) :
    Except ReadError ((TableSizes × Image) × Bytes) := do
  let (sizes, bytes) ← takeTableSizes ended bytes
  let (pools, bytes) ← takePoolSizes ended bytes
  let (ram, bytes) ← takeRamSizes ended bytes
  let (storage, bytes) ← takeMany (takeStorage ended) sizes.storage bytes
  let (functions, bytes) ← takeFunctions ended .empty sizes.functions bytes
  let (numbers, bytes) ← takeMany (takeNumber ended) pools.numbers bytes
  let (texts, bytes) ← takeMany (takeText ended) pools.texts bytes
  return ((sizes, { numbers, texts, storage, functions, ram }), bytes)

/-- Reads the cells of both sections into the image. -/
def takeCode (ended : ReadError) (sizes : TableSizes) (image : Image) (bytes : Bytes) :
    Except ReadError (Image × Bytes) := do
  let (init, bytes) ← takeMany (takeCell ended) sizes.init bytes
  let (program, bytes) ← takeMany (takeCell ended) sizes.program bytes
  return ({ image with init, program }, bytes)

/-- Reads everything after the version of an image, up to its last cell. Missing cells have an
error of their own. -/
def takeContents (ended cellsEnded : ReadError) (bytes : Bytes) :
    Except ReadError (Image × Bytes) := do
  let (tables, bytes) ← takeTables ended bytes
  takeCode cellsEnded tables.1 tables.2 bytes

/-- The error for a line or a text that the end of the stream cuts short. -/
def ByteStream.ended (stream : ByteStream) : ReadError :=
  match stream.failure with
  | some failure => .readFailed failure.message
  | none => .truncated

/-- The error for cells that the end of the stream cuts short. It is the same, except that bytes
that ended too early are the fault of the image here. -/
def ByteStream.cellsEnded (stream : ByteStream) : ReadError :=
  match stream.failure with
  | some failure => if failure.endsEarly then .truncated else .readFailed failure.message
  | none => .truncated

/-- Reads an image from a stream, without verifying it. -/
def takeImage (stream : ByteStream) : Except ReadError Image := do
  let (_, bytes) ← takeVersion stream stream.ended
  let (image, bytes) ← takeContents stream.ended stream.cellsEnded bytes
  match bytes, stream.failure with
  | _ :: _, _ => .error .trailingBytes
  | [], some failure => .error (.readFailed failure.message)
  | [], none => return image

/-- Reads an image from a stream and verifies it. -/
def readImage (stream : ByteStream) : Except ReadError Image := do
  let image ← takeImage stream
  match image.fault? with
  | some fault => .error (.unverified fault)
  | none => return image

end LineScript
