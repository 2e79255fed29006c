import LineScript.Image.Cell
import LineScript.Number.Notation
import LineScript.Word.Basic

/-!
Images of compiled programs. An image has two sections of code, the pools of its constants, the
names of its storage, a table of functions with their addresses in the program section, and the
sizes of the classes of memory that running it takes.
-/

set_option autoImplicit false
set_option relaxedAutoImplicit false

namespace LineScript

open Bytes

/-- The longest text an image may hold, in bytes. -/
def imageTextLimit : Nat := 256

/-- The sections of code. -/
inductive Section where
  /-- Runs once, before the program. -/
  | init
  /-- The bodies of the functions. -/
  | program
  deriving DecidableEq, Repr

def Section.name : Section → Bytes
  | .init => utf8 "init"
  | .program => utf8 "program"

/-- How many slots each class of memory has. -/
structure RamSizes where
  numericVariables : UInt32 := 0
  textVariables : UInt32 := 0
  numericArrays : UInt32 := 0
  textArrays : UInt32 := 0
  dataReferences : UInt32 := 0
  deriving DecidableEq, Repr

/-- The size of one class. -/
def RamSizes.size (sizes : RamSizes) : RamClass → UInt32
  | .values .single .numeric => sizes.numericVariables
  | .values .single .text => sizes.textVariables
  | .values .array .numeric => sizes.numericArrays
  | .values .array .text => sizes.textArrays
  | .data => sizes.dataReferences

/-- One more slot in one class. -/
def RamSizes.grow (sizes : RamSizes) : RamClass → RamSizes
  | .values .single .numeric => { sizes with numericVariables := sizes.numericVariables + 1 }
  | .values .single .text => { sizes with textVariables := sizes.textVariables + 1 }
  | .values .array .numeric => { sizes with numericArrays := sizes.numericArrays + 1 }
  | .values .array .text => { sizes with textArrays := sizes.textArrays + 1 }
  | .data => { sizes with dataReferences := sizes.dataReferences + 1 }

/-! ### Functions -/

/-- Functions with their addresses, in order of declaration. No name occurs twice. -/
structure FunctionTable where
  entries : List (Bytes × UInt32) := []
  distinct : (entries.map Prod.fst).Nodup := by simp
  deriving DecidableEq, Repr

namespace FunctionTable

/-- The table without functions. -/
def empty : FunctionTable := {}

/-- The names of the functions. -/
def names (table : FunctionTable) : List Bytes :=
  table.entries.map Prod.fst

/-- The address of a function. -/
def address? (table : FunctionTable) (name : Bytes) : Option UInt32 :=
  table.entries.lookup name

/-- The table with one more function, unless there is one of that name. -/
def declare? (table : FunctionTable) (name : Bytes) (address : UInt32) : Option FunctionTable :=
  if h : name ∈ table.names then none
  else some {
    entries := table.entries ++ [(name, address)]
    distinct := by
      have hmem : name ∉ table.entries.map Prod.fst := h
      simpa [List.nodup_append, table.distinct] using
        fun a x hx hax ↦ hmem (List.mem_map.mpr ⟨(a, x), hx, hax⟩) }

/-- The table of a list of functions, of which the last of a name counts. -/
def ofList : List (Bytes × UInt32) → FunctionTable
  | [] => empty
  | (name, address) :: rest =>
    let table := ofList rest
    if h : name ∈ table.names then table
    else {
      entries := (name, address) :: table.entries
      distinct := by
        rw [List.map_cons, List.nodup_cons]
        exact ⟨h, table.distinct⟩ }

/-- The functions in the byte order of their names. -/
def sorted (table : FunctionTable) : List (Bytes × UInt32) :=
  table.entries.mergeSort fun first second ↦ Bytes.le first.1 second.1

/-- The functions at an address, in the byte order of their names. -/
def namesAt (table : FunctionTable) (address : UInt32) : List Bytes :=
  ((table.entries.filter (·.2 == address)).map Prod.fst).mergeSort Bytes.le

end FunctionTable

/-! ### Images -/

/-- The image of a compiled program. -/
structure Image where
  init : List Cell := []
  program : List Cell := []
  numbers : List Number := []
  texts : List Bytes := []
  storage : List Bytes := []
  functions : FunctionTable := {}
  ram : RamSizes := {}
  deriving DecidableEq, Repr

namespace Image

/-- The cells of a section. -/
def code (image : Image) : Section → List Cell
  | .init => image.init
  | .program => image.program

/-- How many operands a reference of some meaning can choose from. -/
def operands? (image : Image) : Tag → Option Nat
  | .constant .numeric => some image.numbers.length
  | .constant .text => some image.texts.length
  | .storage _ _ => some image.storage.length
  | .ram ramClass => some (image.ram.size ramClass).toNat
  | _ => none

end Image

/-- Why a cell gives no constant. -/
inductive ConstantError where
  | outOfRange (cell : Cell) (size : Nat)
  | notConstant (cell : Cell)
  deriving DecidableEq, Repr

/-- The report of a cell that gives no constant. -/
def ConstantError.failure : ConstantError → Failure
  | .outOfRange cell size =>
    .single { category := .structural
              message := utf8 "Reference out of range"
              subject := some cell.text
              detail := utf8 "(size " ++ decimal size ++ utf8 ")" }
  | .notConstant cell =>
    .single { category := .structural, message := utf8 "Not const", subject := some cell.text }

/-- The literal that a reference to a constant stands for. -/
def Image.constant (image : Image) (cell : Cell) : Except ConstantError Word :=
  match cell.tag? with
  | some (.constant .numeric) =>
    match image.numbers[cell.value.toNat]? with
    | some number => .ok ⟨.numeric, number.text⟩
    | none => .error (.outOfRange cell image.numbers.length)
  | some (.constant .text) =>
    match image.texts[cell.value.toNat]? with
    | some text => .ok ⟨.text, text⟩
    | none => .error (.outOfRange cell image.texts.length)
  | _ => .error (.notConstant cell)

end LineScript
