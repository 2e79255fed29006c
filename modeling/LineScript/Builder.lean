import LineScript.Image.Verify
import LineScript.Number.Literal
import LineScript.Text.Blank

/-!
Building images. A builder gathers an image step by step: it gives equal constants the same
reference, hands out storage and memory slots, appends cells to the sections and marks the source
position of what follows. A step that fails changes nothing, except that a position may have
been marked in part.
-/

set_option autoImplicit false
set_option relaxedAutoImplicit false

namespace LineScript

open Bytes

/-- Why a step of building fails. -/
inductive BuildError where
  | oversized (cell : Cell)
  | textTooLong (text : Bytes)
  | textWithZero
  | invalidNumber (text : Bytes)
  | notLiteral (word : Word)
  | invalidName (name : Bytes)
  | storageDefined (name : Bytes)
  | functionDefined (name : Bytes)
  | notMemory (code : UInt8)
  | sectionFull (codeSection : Section)
  | patchOutside (codeSection : Section) (address : UInt32)
  | negativeLine (line : Int)
  deriving DecidableEq, Repr

/-- The report of a step that fails. -/
def BuildError.failure : BuildError → Failure
  | .oversized cell => cell.oversized
  | .textTooLong text =>
    .single { category := .format, message := utf8 "Text too long"
              subject := some (excerpt 16 text) }
  | .textWithZero => .single { category := .format, message := utf8 "Text contains a NUL byte" }
  | .invalidNumber text =>
    .single { category := .grammar, message := utf8 "Invalid number", subject := some text }
  | .notLiteral word =>
    .single { category := .grammar, message := utf8 "Not a literal", subject := some word.render }
  | .invalidName name =>
    .single { category := .grammar, message := utf8 "Invalid name", subject := some name }
  | .storageDefined name =>
    .single { category := .grammar, message := utf8 "Storage already defined"
              subject := some name }
  | .functionDefined name =>
    .single { category := .grammar, message := utf8 "Function already defined"
              subject := some name }
  | .notMemory code =>
    .plain (utf8 "emitter: " ++ tagName code ++ utf8 " is not a RAM class")
  | .sectionFull codeSection =>
    oversizedFailure (codeSection.name ++ utf8 " section is full")
  | .patchOutside codeSection address =>
    .plain (utf8 "emitter: patch address " ++ decimal address.toNat ++ utf8 " outside " ++
      codeSection.name ++ utf8 " section")
  | .negativeLine line => .plain (utf8 "emitter: negative line " ++ integer line)

/-- An image being built. What has been entered into the tables of the image is also kept in maps,
newest first, so that a constant is found without a search. -/
structure Builder where
  image : Image := {}
  /-- Where the numbers stand, by their bits. -/
  numberPlaces : List (UInt64 × UInt32) := []
  /-- Where the texts stand. -/
  textPlaces : List (Bytes × UInt32) := []
  /-- The references of the storage variables and arrays, by name. -/
  storageRefs : List (Bytes × Cell) := []
  /-- The longest text in bytes. -/
  textLimit : Nat := imageTextLimit
  /-- The file of the last position. -/
  file : Bytes := []
  /-- The line of the last position. -/
  line : Int := 0
  deriving DecidableEq, Repr

/-- A computation on a builder that can fail. What it has changed before it fails stays changed. -/
abbrev Build := ExceptT BuildError (StateM Builder)

namespace Builder

/-- What a computation gives or why it fails, and the builder after it. -/
def run {α : Type} (builder : Builder) (build : Build α) : Except BuildError α × Builder :=
  StateT.run (ExceptT.run build) builder

/-- An empty builder with a limit on texts; a limit out of range leaves that of the format. -/
def withTextLimit (builder : Builder) (limit : Int) : Builder :=
  if 0 < limit ∧ limit ≤ imageTextLimit then { builder with textLimit := limit.toNat }
  else builder

/-- The cell with a meaning and a value that must fit. -/
def cellOf (code : UInt8) (value : UInt32) : Except BuildError Cell :=
  let cell : Cell := ⟨code, value⟩
  if cell.fits then .ok cell else .error (.oversized cell)

/-- The reference that the next entry of a table gets. -/
def nextRef (tag : Tag) (count : Nat) : Except BuildError Cell :=
  cellOf tag.code (UInt32.ofNat count)

/-- The builder with one more number, which is found by its bits from then on. -/
def addNumber (builder : Builder) (number : Number) (place : UInt32) : Builder :=
  { builder with
    numberPlaces := (number.bits, place) :: builder.numberPlaces
    image.numbers := builder.image.numbers ++ [number] }

/-- The builder with one more text, which is found from then on. -/
def addText (builder : Builder) (text : Bytes) (place : UInt32) : Builder :=
  { builder with
    textPlaces := (text, place) :: builder.textPlaces
    image.texts := builder.image.texts ++ [text] }

/-- The builder with one more storage variable or array, which is found by its name from then on. -/
def addStorage (builder : Builder) (name : Bytes) (ref : Cell) : Builder :=
  { builder with
    storageRefs := (name, ref) :: builder.storageRefs
    image.storage := builder.image.storage ++ [name] }

/-- The reference of a number, which is added unless it is there. -/
def number (number : Number) : Build Cell := do
  match (← get).numberPlaces.lookup number.bits with
  | some place => return .of (.constant .numeric) place
  | none =>
    let ref ← nextRef (.constant .numeric) (← get).image.numbers.length
    modify (·.addNumber number ref.value)
    return ref

/-- The reference of a text, which is added unless it is there. -/
def text (text : Bytes) : Build Cell := do
  match (← get).textPlaces.lookup text with
  | some place => return .of (.constant .text) place
  | none =>
    if (← get).textLimit < text.length then throw (.textTooLong text)
    else if text.contains 0 then throw .textWithZero
    else
      let ref ← nextRef (.constant .text) (← get).image.texts.length
      modify (·.addText text ref.value)
      return ref

/-- The reference of the constant that a literal denotes. -/
def literal (word : Word) : Build Cell :=
  match word.kind with
  | .numeric =>
    match Number.read? word.text with
    | some value => number value
    | none => throw (.invalidNumber word.text)
  | .text => text word.text
  | _ => throw (.notLiteral word)

/-- The reference of a new storage variable or array. -/
def storage (name : Bytes) (arity : Arity) (type : ValueType) : Build Cell := do
  if !Text.isName name then throw (.invalidName name)
  else
    match (← get).storageRefs.lookup name with
    | some _ => throw (.storageDefined name)
    | none =>
      let ref ← nextRef (.storage arity type) (← get).image.storage.length
      modify (·.addStorage name ref)
      return ref

/-- The reference of a new slot of memory. -/
def slot (code : UInt8) : Build Cell := do
  match Tag.ofCode? code with
  | some (.ram ramClass) =>
    let ref ← cellOf code ((← get).image.ram.size ramClass)
    modify fun builder ↦ { builder with image.ram := builder.image.ram.grow ramClass }
    return ref
  | _ => throw (.notMemory code)

/-- The address of the next cell of a section. -/
def here (builder : Builder) (codeSection : Section) : Nat :=
  (builder.image.code codeSection).length

/-- The builder with other cells in a section. -/
def setCode (builder : Builder) (codeSection : Section) (cells : List Cell) : Builder :=
  match codeSection with
  | .init => { builder with image.init := cells }
  | .program => { builder with image.program := cells }

/-- Appends a cell to a section. -/
def emit (codeSection : Section) (code : UInt8) (value : UInt32) : Build Unit := do
  let cell ← cellOf code value
  let cells := (← get).image.code codeSection
  if maxValue < cells.length then throw (.sectionFull codeSection)
  else modify (·.setCode codeSection (cells ++ [cell]))

/-- Gives a cell of a section another value. -/
def patch (codeSection : Section) (address value : UInt32) : Build Unit := do
  let cells := (← get).image.code codeSection
  match cells[address.toNat]? with
  | none => throw (.patchOutside codeSection address)
  | some old =>
    let cell ← cellOf old.code value
    modify (·.setCode codeSection (cells.set address.toNat cell))

/-- Marks the file of what follows, unless it is marked. The line is then unknown. -/
def markFile (file : Bytes) : Build Unit := do
  if file = (← get).file then return
  else
    let ref ← text file
    emit .program Tag.file.code ref.value
    modify ({ · with file, line := 0 })

/-- Marks the line of what follows, unless it is marked. The line counts as marked also when its
cell cannot be appended. -/
def markLine (line : Int) : Build Unit := do
  if line = (← get).line then return
  else if line < 0 then throw (.negativeLine line)
  else
    modify ({ · with line })
    emit .program Tag.line.code (UInt32.ofNat line.toNat)

/-- Marks the position of what follows. -/
def position (file : Bytes) (line : Int) : Build Unit := do
  markFile file
  markLine line

/-- Declares a function that starts at the next cell of the program section. -/
def function (name : Bytes) : Build Unit := do
  if !Text.isName name then throw (.invalidName name)
  else
    let builder ← get
    match builder.image.functions.declare? name (UInt32.ofNat (builder.here .program)) with
    | some functions => modify ({ · with image.functions := functions })
    | none => throw (.functionDefined name)

/-- The image built so far, if it verifies. -/
def finish (builder : Builder) : Except ImageFault Image :=
  match builder.image.fault? with
  | some fault => .error fault
  | none => .ok builder.image

end Builder

/-! ### Steps as data -/

/-- One step of building. -/
inductive BuildStep where
  | number (number : Number)
  | text (text : Bytes)
  | literal (word : Word)
  | storage (name : Bytes) (arity : Arity) (type : ValueType)
  | slot (code : UInt8)
  | emit (codeSection : Section) (code : UInt8) (value : UInt32)
  | patch (codeSection : Section) (address value : UInt32)
  | position (file : Bytes) (line : Int)
  | function (name : Bytes)
  deriving DecidableEq, Repr

namespace Builder

/-- What a step does: it hands out a reference, or it only changes the builder. -/
def act : BuildStep → Build (Option Cell)
  | .number value => some <$> number value
  | .text value => some <$> text value
  | .literal word => some <$> literal word
  | .storage name arity type => some <$> storage name arity type
  | .slot code => some <$> slot code
  | .emit codeSection code value => (fun _ ↦ none) <$> emit codeSection code value
  | .patch codeSection address value => (fun _ ↦ none) <$> patch codeSection address value
  | .position file line => (fun _ ↦ none) <$> position file line
  | .function name => (fun _ ↦ none) <$> function name

/-- Does one step: the reference that it hands out if it does, or its failure, and the builder
after it. -/
def perform (builder : Builder) (step : BuildStep) : Except BuildError (Option Cell) × Builder :=
  builder.run (act step)

/-- The builder after steps done in order, those that fail included. -/
def performAll (builder : Builder) (steps : List BuildStep) : Builder :=
  steps.foldl (fun builder step ↦ (builder.perform step).2) builder

end Builder

end LineScript
