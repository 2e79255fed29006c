import LineScript.Image.Basic

/-!
Verification of images. Every cell must have a meaning and a value that fits, every reference
must point at an operand that exists, and every function must start inside the program section.
The targets of jumps are not checked. The first fault counts: cells in the order of the
sections, then functions in the byte order of their names.
-/

set_option autoImplicit false
set_option relaxedAutoImplicit false

namespace LineScript

open Bytes

/-- What can be wrong with a cell, in the order in which it is checked. -/
inductive CellFault where
  | unknownType
  | oversized
  | outOfRange
  deriving DecidableEq, Repr

def CellFault.message : CellFault → Bytes
  | .unknownType => utf8 "Unknown word type"
  | .oversized => utf8 "Value exceeds 24 bits"
  | .outOfRange => utf8 "Reference out of range"

/-- Why an image is refused. -/
inductive ImageFault where
  | faultyCell (fault : CellFault) (codeSection : Section) (index : Nat) (cell : Cell)
  | strayFunction (name : Bytes) (address : UInt32) (programSize : Nat)
  deriving DecidableEq, Repr

/-- The report of a fault. -/
def ImageFault.failure : ImageFault → Failure
  | .faultyCell fault codeSection index cell =>
    .single { category := .structural
              message := fault.message
              subject := some cell.text
              detail := utf8 "at " ++ codeSection.name ++ utf8 "[" ++ decimal index ++ utf8 "]" }
  | .strayFunction name address programSize =>
    .single { category := .structural
              message := utf8 "Function entry out of range"
              subject := some name
              detail := utf8 "(address " ++ decimal address.toNat ++ utf8 ", program size " ++
                decimal programSize ++ utf8 ")" }

namespace Image

/-- The first thing wrong with a cell. -/
def cellFault? (image : Image) (cell : Cell) : Option CellFault :=
  match cell.tag? with
  | none => some .unknownType
  | some tag =>
    if !cell.fits then some .oversized
    else if (image.operands? tag).any (· ≤ cell.value.toNat) then some .outOfRange
    else none

/-- The first faulty cell of a section from `index` on. -/
def cellsFault? (image : Image) (codeSection : Section) (index : Nat) :
    List Cell → Option ImageFault
  | [] => none
  | cell :: rest =>
    match image.cellFault? cell with
    | some fault => some (.faultyCell fault codeSection index cell)
    | none => image.cellsFault? codeSection (index + 1) rest

/-- The first function, by name, that starts outside the program section. -/
def functionFault? (image : Image) : Option ImageFault :=
  (image.functions.sorted.find? fun entry ↦ image.program.length ≤ entry.2.toNat).map
    fun entry ↦ .strayFunction entry.1 entry.2 image.program.length

/-- The first fault of an image. -/
def fault? (image : Image) : Option ImageFault :=
  image.cellsFault? .init 0 image.init <|>
    image.cellsFault? .program 0 image.program <|>
    image.functionFault?

end Image

end LineScript
