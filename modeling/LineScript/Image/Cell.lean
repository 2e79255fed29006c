import LineScript.Diagnostic

/-!
Cells, the units of code. A cell is 32 bits wide: eight bits say what the cell means and 24 bits
hold a value. Some meanings are references to operands: to a constant, to a storage variable or
array, or to a slot of memory.
-/

set_option autoImplicit false
set_option relaxedAutoImplicit false

namespace LineScript

open Bytes

-- Powers are those of the core library, also beside other instances.
attribute [local instance (2000)] instPowNat

/-- The types of values. -/
inductive ValueType where
  | numeric
  | text
  deriving DecidableEq, Repr

/-- Whether something holds one value or a list of values. -/
inductive Arity where
  | single
  | array
  deriving DecidableEq, Repr

/-- The classes of memory slots, each counted on its own. -/
inductive RamClass where
  | values (arity : Arity) (type : ValueType)
  | data
  deriving DecidableEq, Repr

/-- What a cell means. -/
inductive Tag where
  | ret
  | file
  | line
  | goto
  | gotoIf
  | gotoIfNot
  | numberOperation
  | textOperation
  | compare
  | inputFunction
  | outputFunction
  | systemFunction
  | deviceFunction
  | mathFunction
  | userFunction
  /-- A reference to a constant. -/
  | constant (type : ValueType)
  /-- A reference to a storage variable or array. -/
  | storage (arity : Arity) (type : ValueType)
  /-- A reference to a memory slot. -/
  | ram (ramClass : RamClass)
  deriving DecidableEq, Repr

namespace Tag

/-- The eight bits of a meaning. -/
def code : Tag → UInt8
  | .ret => 0x00
  | .file => 0x01
  | .line => 0x02
  | .goto => 0x03
  | .gotoIf => 0x04
  | .gotoIfNot => 0x05
  | .numberOperation => 0x10
  | .textOperation => 0x11
  | .compare => 0x12
  | .inputFunction => 0x20
  | .outputFunction => 0x21
  | .systemFunction => 0x22
  | .deviceFunction => 0x23
  | .mathFunction => 0x24
  | .userFunction => 0x25
  | .constant .numeric => 130
  | .constant .text => 131
  | .storage .single .numeric => 140
  | .storage .single .text => 141
  | .storage .array .numeric => 150
  | .storage .array .text => 151
  | .ram (.values .single .numeric) => 160
  | .ram (.values .single .text) => 161
  | .ram (.values .array .numeric) => 170
  | .ram (.values .array .text) => 171
  | .ram .data => 180

/-- The meaning of eight bits, if they have one. -/
def ofCode? (code : UInt8) : Option Tag :=
  match code with
  | 0x00 => some .ret
  | 0x01 => some .file
  | 0x02 => some .line
  | 0x03 => some .goto
  | 0x04 => some .gotoIf
  | 0x05 => some .gotoIfNot
  | 0x10 => some .numberOperation
  | 0x11 => some .textOperation
  | 0x12 => some .compare
  | 0x20 => some .inputFunction
  | 0x21 => some .outputFunction
  | 0x22 => some .systemFunction
  | 0x23 => some .deviceFunction
  | 0x24 => some .mathFunction
  | 0x25 => some .userFunction
  | 130 => some (.constant .numeric)
  | 131 => some (.constant .text)
  | 140 => some (.storage .single .numeric)
  | 141 => some (.storage .single .text)
  | 150 => some (.storage .array .numeric)
  | 151 => some (.storage .array .text)
  | 160 => some (.ram (.values .single .numeric))
  | 161 => some (.ram (.values .single .text))
  | 170 => some (.ram (.values .array .numeric))
  | 171 => some (.ram (.values .array .text))
  | 180 => some (.ram .data)
  | _ => none

@[simp] theorem ofCode?_code (tag : Tag) : ofCode? tag.code = some tag := by
  rcases tag with _ | _ | _ | _ | _ | _ | _ | _ | _ | _ | _ | _ | _ | _ | _ | (_ | _) |
    ⟨_ | _, _ | _⟩ | (⟨_ | _, _ | _⟩ | _) <;> rfl

/-- Each meaning has one code. -/
theorem code_of_ofCode? {code : UInt8} {tag : Tag} (h : ofCode? code = some tag) :
    tag.code = code := by
  unfold ofCode? at h
  split at h
  all_goals cases h
  all_goals rfl

/-- The name of a meaning in listings. -/
def name : Tag → Bytes
  | .ret => utf8 "RETURN"
  | .file => utf8 "FILE"
  | .line => utf8 "LINE"
  | .goto => utf8 "GOTO"
  | .gotoIf => utf8 "GOTO_IF"
  | .gotoIfNot => utf8 "GOTO_IF_NOT"
  | .numberOperation => utf8 "NUMBER_OPERATION"
  | .textOperation => utf8 "TEXT_OPERATION"
  | .compare => utf8 "COMPARE"
  | .inputFunction => utf8 "INPUT_FUNCTION"
  | .outputFunction => utf8 "OUTPUT_FUNCTION"
  | .systemFunction => utf8 "SYSTEM_FUNCTION"
  | .deviceFunction => utf8 "DEVICE_FUNCTION"
  | .mathFunction => utf8 "MATH_FUNCTION"
  | .userFunction => utf8 "USER_FUNCTION"
  | .constant .numeric => utf8 "ROM_CONST_NUMERIC"
  | .constant .text => utf8 "ROM_CONST_TEXT"
  | .storage .single .numeric => utf8 "STORAGE_VAR_NUMERIC"
  | .storage .single .text => utf8 "STORAGE_VAR_TEXT"
  | .storage .array .numeric => utf8 "STORAGE_ARRAY_NUMERIC"
  | .storage .array .text => utf8 "STORAGE_ARRAY_TEXT"
  | .ram (.values .single .numeric) => utf8 "RAM_VAR_NUMERIC"
  | .ram (.values .single .text) => utf8 "RAM_VAR_TEXT"
  | .ram (.values .array .numeric) => utf8 "RAM_ARRAY_NUMERIC"
  | .ram (.values .array .text) => utf8 "RAM_ARRAY_TEXT"
  | .ram .data => utf8 "RAM_DATA"

/-- A reference to something that can be assigned to as a whole and is no array. -/
def isVariable : Tag → Bool
  | .storage .single _ | .ram (.values .single _) => true
  | _ => false

/-- A reference to an array. -/
def isArray : Tag → Bool
  | .storage .array _ | .ram (.values .array _) => true
  | _ => false

/-- A reference to one value of a type. -/
def refersTo (type : ValueType) : Tag → Bool
  | .constant own | .storage .single own | .ram (.values .single own) => own = type
  | _ => false

/-- A reference to a constant. -/
def isConstant : Tag → Bool
  | .constant _ => true
  | _ => false

end Tag

/-- The name of eight bits in listings, by their number where they have no meaning. -/
def tagName (code : UInt8) : Bytes :=
  match Tag.ofCode? code with
  | some tag => tag.name
  | none => utf8 "TYPE_" ++ decimal code.toNat

/-- The largest value of a cell. -/
def maxValue : Nat := 2 ^ (24 : Nat) - 1

/-- One unit of code. The value is kept as given, and only 24 bits of it are written out. -/
structure Cell where
  code : UInt8
  value : UInt32
  deriving DecidableEq, Repr

namespace Cell

/-- The meaning of a cell. -/
def tag? (cell : Cell) : Option Tag :=
  Tag.ofCode? cell.code

/-- The cell with a meaning and a value. -/
def of (tag : Tag) (value : UInt32) : Cell :=
  ⟨tag.code, value⟩

/-- Whether the value fits into its 24 bits. -/
def fits (cell : Cell) : Bool :=
  cell.value.toNat ≤ maxValue

/-- The cell as 32 bits, without the bits of the value that do not fit. -/
def raw (cell : Cell) : UInt32 :=
  UInt32.ofNat (cell.code.toNat * 2 ^ (24 : Nat) + cell.value.toNat % 2 ^ (24 : Nat))

/-- The cell that 32 bits hold. -/
def ofRaw (raw : UInt32) : Cell :=
  ⟨UInt8.ofNat (raw.toNat / 2 ^ (24 : Nat)), UInt32.ofNat (raw.toNat % 2 ^ (24 : Nat))⟩

/-- A cell in reports and listings. -/
def text (cell : Cell) : Bytes :=
  tagName cell.code ++ utf8 "\x7b" ++ decimal cell.value.toNat ++ utf8 "\x7d"

end Cell

/-- The refusal of a value that does not fit, with a remark on where it stands. -/
def oversizedFailure (remark : Bytes) : Failure :=
  .noted (.single { category := .format, message := utf8 "vm: value exceeds 24 bits" }) remark

/-- The refusal of a cell whose value does not fit. -/
def Cell.oversized (cell : Cell) : Failure :=
  oversizedFailure (tagName cell.code ++ 0x20 :: decimal cell.value.toNat)

/-- The cell itself if its value fits. -/
def Cell.checked (cell : Cell) : Except Failure Cell :=
  if cell.fits then .ok cell else .error cell.oversized

end LineScript
