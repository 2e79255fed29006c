import LineScript.Image.Listing
import LineScript.Image.Verify
import LineScript.Text.Blank

/-!
Writing images. A header in text gives the version and all sizes, then follow the names of the
storage, the functions in the byte order of their names, the numbers in decimal, each on its
line, the texts, each ended by a zero byte, and the cells of both sections with the lowest byte
first. An image that does not fit the format, or that does not verify, is refused before
anything is written.
-/

set_option autoImplicit false
set_option relaxedAutoImplicit false

namespace LineScript

open Bytes

-- Powers are those of the core library, also beside other instances.
attribute [local instance (2000)] instPowNat

/-- The largest count that a header may hold: one more than the largest value of a cell. -/
def maxCount : Nat := maxValue + 1

/-- Why an image is not written. -/
inductive WriteError where
  | storageName (name : Bytes)
  | functionName (name : Bytes)
  | textTooLong (index length : Nat)
  | textWithZero (index : Nat)
  | tooMany (what : Bytes) (count : Nat)
  | oversized (cell : Cell)
  | unverified (fault : ImageFault)
  deriving DecidableEq, Repr

/-- A failure of the format with a remark. -/
def malformedFailure (remark : Bytes) : Failure :=
  .noted (.single { category := .format, message := utf8 "Malformed assembly" }) remark

/-- The report of a name that a table cannot hold. -/
def nameFailure (what name : Bytes) : Failure :=
  malformedFailure (utf8 "invalid " ++ what ++ utf8 " name " ++ Text.quote name)

/-- The report of an image that is not written. -/
def WriteError.failure : WriteError → Failure
  | .storageName name => nameFailure (utf8 "storage") name
  | .functionName name => nameFailure (utf8 "function") name
  | .textTooLong index length =>
    malformedFailure (utf8 "text constant " ++ decimal index ++ utf8 " is " ++ decimal length ++
      utf8 " bytes, limit " ++ decimal imageTextLimit)
  | .textWithZero index =>
    malformedFailure (utf8 "text constant " ++ decimal index ++ utf8 " contains a NUL byte")
  | .tooMany what count =>
    oversizedFailure (what ++ utf8 " has " ++ decimal count ++ utf8 " entries")
  | .oversized cell => oversizedFailure cell.text
  | .unverified fault => fault.failure

/-- The first text from `index` on that the format cannot hold. -/
def textError? (index : Nat) : List Bytes → Option WriteError
  | [] => none
  | text :: rest =>
    if imageTextLimit < text.length then some (.textTooLong index text.length)
    else if text.contains 0 then some (.textWithZero index)
    else textError? (index + 1) rest

namespace Image

/-- Every count that the header holds. -/
def counts (image : Image) : List (Bytes × Nat) :=
  [(utf8 "init section", image.init.length),
   (utf8 "program section", image.program.length),
   (utf8 "storage table", image.storage.length),
   (utf8 "function table", image.functions.entries.length),
   (utf8 "numeric pool", image.numbers.length),
   (utf8 "text pool", image.texts.length),
   (utf8 "numeric variables", image.ram.numericVariables.toNat),
   (utf8 "text variables", image.ram.textVariables.toNat),
   (utf8 "data references", image.ram.dataReferences.toNat),
   (utf8 "numeric arrays", image.ram.numericArrays.toNat),
   (utf8 "text arrays", image.ram.textArrays.toNat)]

/-- The first thing in an image that the format cannot hold. -/
def formatError? (image : Image) : Option WriteError :=
  (image.storage.find? (!Text.isName ·)).map .storageName <|>
    (image.functions.sorted.find? fun entry ↦ !Text.isName entry.1).map
      (fun entry ↦ .functionName entry.1) <|>
    textError? 0 image.texts <|>
    (image.counts.find? fun entry ↦ decide (maxCount < entry.2)).map
      (fun entry ↦ .tooMany entry.1 entry.2) <|>
    ((image.init ++ image.program).find? (!·.fits)).map .oversized

/-- The first reason not to write an image. -/
def writeError? (image : Image) : Option WriteError :=
  image.formatError? <|> image.fault?.map .unverified

end Image

/-! ### The bytes of an image -/

/-- Counts on one line, one space apart. -/
def countLine (counts : List Nat) : Bytes :=
  joined [0x20] (counts.map decimal) ++ [0x0A]

/-- The four bytes of 32 bits, the lowest first. -/
def littleEndian (word : UInt32) : Bytes :=
  [UInt8.ofNat word.toNat, UInt8.ofNat (word.toNat / 2 ^ (8 : Nat)),
   UInt8.ofNat (word.toNat / 2 ^ (16 : Nat)), UInt8.ofNat (word.toNat / 2 ^ (24 : Nat))]

namespace Image

/-- The version and all sizes. -/
def header (image : Image) : Bytes :=
  imageMark ++ 0x20 :: decimal imageVersion ++ 0x0A ::
    countLine [image.init.length, image.program.length, image.storage.length,
      image.functions.entries.length] ++
    countLine [image.numbers.length, image.texts.length] ++
    countLine [image.ram.numericVariables.toNat, image.ram.textVariables.toNat,
      image.ram.dataReferences.toNat, image.ram.numericArrays.toNat, image.ram.textArrays.toNat]

/-- The bytes of an image. -/
def bytes (image : Image) : Bytes :=
  image.header ++
    image.storage.flatMap (· ++ [0x0A]) ++
    (image.functions.sorted.flatMap fun (name, address) ↦
      name ++ 0x20 :: decimal address.toNat ++ [0x0A]) ++
    (image.numbers.flatMap fun number ↦ number.text ++ [0x0A]) ++
    image.texts.flatMap (· ++ [0x00]) ++
    (image.init ++ image.program).flatMap fun cell ↦ littleEndian cell.raw

/-- Writes an image. -/
def write (image : Image) : Except WriteError Bytes :=
  match image.writeError? with
  | some error => .error error
  | none => .ok image.bytes

end Image

end LineScript
