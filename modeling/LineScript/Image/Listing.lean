import LineScript.Image.Basic

/-!
Listings of images: the sizes of the tables, then both sections of code, a cell on each row. The
functions that start at a cell stand above its row, and a reference is followed by what it
refers to. An image need not be verified to be listed.
-/

set_option autoImplicit false
set_option relaxedAutoImplicit false

namespace LineScript

open Bytes

/-- The mark that opens every image. -/
def imageMark : Bytes := utf8 "XenonCode!"

/-- The version of the layout, the newest that is read and the one that is written. -/
def imageVersion : Nat := 0

/-! ### Labels -/

/-- The names that stand above the rows of a section, with the addresses of the rows. -/
abbrev Labels := List (UInt32 × List Bytes)

namespace Labels

/-- The names above the row at an address. -/
def above (labels : Labels) (address : UInt32) : List Bytes :=
  (labels.lookup address).getD []

/-- One more name at an address, after those that it has. -/
def add (name : Bytes) (address : UInt32) : Labels → Labels
  | [] => [(address, [name])]
  | (other, names) :: rest =>
    if other = address then (other, names ++ [name]) :: rest
    else (other, names) :: add name address rest

end Labels

/-- The functions of a table by address, those of one address in the byte order of their names. -/
def FunctionTable.labels (table : FunctionTable) : Labels :=
  let labels : Labels := table.entries.foldl (fun labels (name, address) ↦ labels.add name address)
    []
  labels.map fun (address, names) ↦ (address, names.mergeSort Bytes.le)

/-! ### Rows -/

namespace Image

/-- What a cell refers to, as far as it can be told. -/
def remark? (image : Image) (cell : Cell) : Option Bytes :=
  match cell.tag? with
  | some (.constant _) => (image.constant cell).toOption.map Word.render
  | some (.storage _ _) => image.storage[cell.value.toNat]?
  | some .userFunction => (image.functions.namesAt cell.value).head?
  | some .goto | some .gotoIf | some .gotoIfNot =>
    some (utf8 "-> " ++ decimal cell.value.toNat)
  | _ => none

/-- The row of a cell. -/
def row (image : Image) (index : Nat) (cell : Cell) : Bytes :=
  let remark := match image.remark? cell with
    | some text => utf8 "  ; " ++ text
    | none => []
  utf8 "  " ++ padded 0x30 4 (decimal index) ++ utf8 "  " ++ cell.text ++ remark ++ [0x0A]

/-- The mark and the sizes of the tables. -/
def heading (image : Image) : Bytes :=
  utf8 "; " ++ imageMark ++ utf8 " v" ++ decimal imageVersion ++ utf8 "\n; constants: " ++
    decimal image.numbers.length ++ utf8 " numeric, " ++ decimal image.texts.length ++
    utf8 " text\n; ram: " ++ decimal image.ram.numericVariables.toNat ++
    utf8 " numeric vars, " ++ decimal image.ram.textVariables.toNat ++ utf8 " text vars, " ++
    decimal image.ram.numericArrays.toNat ++ utf8 " numeric arrays, " ++
    decimal image.ram.textArrays.toNat ++ utf8 " text arrays, " ++
    decimal image.ram.dataReferences.toNat ++ utf8 " data refs\n"

/-- The heading, and the names of the storage. -/
def summary (image : Image) : Bytes :=
  image.heading ++
    image.storage.zipIdx.flatMap fun (name, index) ↦
      utf8 "; storage " ++ decimal index ++ utf8 ": " ++ name ++ [0x0A]

/-- The listing of an image. -/
def listing (image : Image) : Bytes :=
  let labels := image.functions.labels
  image.summary ++ utf8 "init:\n" ++
    (image.init.zipIdx.flatMap fun (cell, index) ↦ image.row index cell) ++ utf8 "program:\n" ++
    image.program.zipIdx.flatMap fun (cell, index) ↦
      (labels.above (UInt32.ofNat index)).flatMap (· ++ utf8 ":\n") ++ image.row index cell

end Image

end LineScript
