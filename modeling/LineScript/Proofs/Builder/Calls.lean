import LineScript.Proofs.Builder.Writable

/-!
What the calls of a builder do. A call that gives a reference is about an operand: a constant, a
storage variable or array, or a slot of memory. It enters the operand into its table, unless that is
a constant that is there, and the reference says where the operand stands. The other calls append or
change cells, declare functions or mark positions. `Effect` says once what a step can do to a
builder and which references it hands out and grants.
-/

set_option autoImplicit false
set_option relaxedAutoImplicit false

namespace LineScript

/-- What a reference stands for. -/
inductive Operand where
  | number (number : Number)
  | text (text : Bytes)
  | storage (name : Bytes) (arity : Arity) (type : ValueType)
  | slot (ramClass : RamClass)
  deriving DecidableEq, Repr

/-- What the cells of references to an operand mean. -/
def Operand.tag : Operand → Tag
  | .number _ => .constant .numeric
  | .text _ => .constant .text
  | .storage _ arity type => .storage arity type
  | .slot ramClass => .ram ramClass

/-! ### Tables -/

/-- The tables of an image that references point into. -/
structure Pools where
  numbers : List Number := []
  texts : List Bytes := []
  storage : List Bytes := []
  ram : RamSizes := {}
  deriving DecidableEq, Repr

def Image.pools (image : Image) : Pools :=
  ⟨image.numbers, image.texts, image.storage, image.ram⟩

def Image.withPools (image : Image) (pools : Pools) : Image :=
  { image with
    numbers := pools.numbers, texts := pools.texts, storage := pools.storage, ram := pools.ram }

/-- The list with an item at its end, unless it is there. -/
def addNew {α : Type} [BEq α] (items : List α) (item : α) : List α :=
  if items.contains item then items else items ++ [item]

namespace Pools

/-- The tables with one more operand. -/
def enter (pools : Pools) : Operand → Pools
  | .number number => { pools with numbers := addNew pools.numbers number }
  | .text text => { pools with texts := addNew pools.texts text }
  | .storage name _ _ => { pools with storage := pools.storage ++ [name] }
  | .slot ramClass => { pools with ram := pools.ram.grow ramClass }

/-- Where an operand stands once it is entered. -/
def place (pools : Pools) : Operand → Nat
  | .number number => pools.numbers.idxOf number
  | .text text => pools.texts.idxOf text
  | .storage _ _ _ => pools.storage.length
  | .slot ramClass => (pools.ram.size ramClass).toNat

/-- Whether an operand stands at an index of its table. -/
def Holds (pools : Pools) (index : Nat) : Operand → Prop
  | .number number => pools.numbers[index]? = some number
  | .text text => pools.texts[index]? = some text
  | .storage name _ _ => pools.storage[index]? = some name
  | .slot ramClass => index < (pools.ram.size ramClass).toNat

/-- Whether a reference stands for an operand. -/
def Denotes (pools : Pools) (ref : Cell) (operand : Operand) : Prop :=
  ref.code = operand.tag.code ∧ pools.Holds ref.value.toNat operand

end Pools

/-! ### Lists of distinct items -/

section AddNew

variable {α : Type} [BEq α] [LawfulBEq α] {items : List α} {item other : α} {index : Nat}

theorem addNew_of_mem (h : item ∈ items) : addNew items item = items :=
  if_pos (List.contains_iff_mem.mpr h)

theorem addNew_of_notMem (h : item ∉ items) : addNew items item = items ++ [item] :=
  if_neg (mt List.contains_iff_mem.mp h)

theorem getElem?_addNew (h : items[index]? = some other) :
    (addNew items item)[index]? = some other := by
  by_cases hmem : item ∈ items
  · rw [addNew_of_mem hmem]
    exact h
  · rw [addNew_of_notMem hmem, List.getElem?_append_left (List.getElem?_eq_some_iff.mp h).1]
    exact h

theorem getElem?_idxOf_addNew (items : List α) (item : α) :
    (addNew items item)[items.idxOf item]? = some item := by
  by_cases hmem : item ∈ items
  · rw [addNew_of_mem hmem, List.getElem?_idxOf hmem]
  · rw [addNew_of_notMem hmem, List.idxOf_of_notMem hmem, List.getElem?_concat_length]

end AddNew

/-! ### Calls -/

namespace Builder

/-- The builder with one more operand in its table and its map, unless it is a constant that is
there. -/
def enter (builder : Builder) : Operand → Builder
  | .number value =>
    if builder.image.numbers.contains value then builder
    else builder.addNumber value (UInt32.ofNat builder.image.numbers.length)
  | .text value =>
    if builder.image.texts.contains value then builder
    else builder.addText value (UInt32.ofNat builder.image.texts.length)
  | .storage name arity type =>
    builder.addStorage name
      (.of (.storage arity type) (UInt32.ofNat builder.image.storage.length))
  | .slot ramClass => { builder with image.ram := builder.image.ram.grow ramClass }

/-- A call that gives a reference to an operand: the reference says where the operand stands, and
the operand is entered. Nothing else changes. -/
structure Enters (builder : Builder) (operand : Operand) (ref : Cell) (next : Builder) : Prop where
  code : ref.code = operand.tag.code
  value : ref.value.toNat = builder.image.pools.place operand
  room : builder.image.pools.place operand ≤ maxValue
  next_eq : next = builder.enter operand

/-- Of the image only the tables change. -/
theorem image_enter (builder : Builder) (operand : Operand) :
    (builder.enter operand).image =
      builder.image.withPools (builder.image.pools.enter operand) := by
  cases operand with
  | number value =>
    change _ = { builder.image with numbers := addNew builder.image.numbers value }
    rw [enter]
    split_ifs with hmem
    · rw [addNew, if_pos hmem]
    · rw [addNew, if_neg hmem]
      rfl
  | text value =>
    change _ = { builder.image with texts := addNew builder.image.texts value }
    rw [enter]
    split_ifs with hmem
    · rw [addNew, if_pos hmem]
    · rw [addNew, if_neg hmem]
      rfl
  | storage | slot => rfl

/-- The last position stays. -/
theorem position_enter (builder : Builder) (operand : Operand) :
    (builder.enter operand).file = builder.file ∧ (builder.enter operand).line = builder.line := by
  cases operand with
  | number | text =>
    rw [enter]
    split_ifs <;> exact ⟨rfl, rfl⟩
  | storage | slot => exact ⟨rfl, rfl⟩

section Calls

variable {builder next : Builder} {ref : Cell}

/-- The reference of the next entry of a table that fits the format. -/
theorem value_of_nextRef {tag : Tag} {count : Nat} (h : nextRef tag count = .ok ref)
    (hcount : count ≤ maxCount) :
    ref.code = tag.code ∧ ref.value.toNat = count ∧ count ≤ maxValue := by
  obtain ⟨rfl, hroom⟩ := nextRef_eq_ok h
  have hvalue : (UInt32.ofNat count).toNat = count := by
    rw [UInt32.toNat_ofNat']
    unfold maxCount maxValue at hcount
    omega
  exact ⟨rfl, hvalue, hvalue ▸ hroom⟩

/-- The place of a constant that its table holds. -/
theorem place_of_held {α : Type} [BEq α] [LawfulBEq α] {items : List α} {item : α} {index : Nat}
    (hdistinct : items.Nodup) (h : items[index]? = some item) (hlength : items.length ≤ maxCount) :
    index = items.idxOf item ∧ items.idxOf item ≤ maxValue := by
  obtain ⟨hlt, rfl⟩ := List.getElem?_eq_some_iff.mp h
  rw [hdistinct.idxOf_getElem index hlt]
  unfold maxCount at hlength
  exact ⟨rfl, by omega⟩

theorem enters_of_number (hsound : builder.Sound) {value : Number}
    (h : builder.run (number value) = (.ok ref, next)) :
    builder.Enters (.number value) ref next := by
  rw [run_number] at h
  split at h
  · rename_i place hplace
    cases h
    have hheld : builder.image.numbers[place.toNat]? = some value :=
      hsound.lookup_bits_iff.mp (by rw [hplace, Option.map_some])
    obtain ⟨hvalue, hroom⟩ := place_of_held hsound.nodup_numbers hheld hsound.numbers
    have hmem := List.contains_iff_mem.mpr (List.mem_of_getElem? hheld)
    exact ⟨rfl, hvalue, hroom, (if_pos hmem).symm⟩
  · rename_i hnone
    have hnew := hsound.notMem_numbers hnone
    split at h
    · rename_i found href
      cases h
      obtain ⟨hcode, hvalue, hroom⟩ := value_of_nextRef href hsound.numbers
      obtain ⟨rfl, -⟩ := nextRef_eq_ok href
      have hplace := List.idxOf_of_notMem hnew
      exact ⟨hcode, hvalue.trans hplace.symm, hplace.trans_le hroom,
        (if_neg (mt List.contains_iff_mem.mp hnew)).symm⟩
    · cases h

theorem enters_of_text (hsound : builder.Sound) {value : Bytes}
    (h : builder.run (text value) = (.ok ref, next)) : builder.Enters (.text value) ref next := by
  rw [run_text] at h
  split at h
  · rename_i place hplace
    cases h
    have hheld := hsound.textPlaces.getElem?_of_lookup hplace
    obtain ⟨hvalue, hroom⟩ := place_of_held hsound.textPlaces.nodup hheld hsound.texts
    have hmem := List.contains_iff_mem.mpr (List.mem_of_getElem? hheld)
    exact ⟨rfl, hvalue, hroom, (if_pos hmem).symm⟩
  · rename_i hnone
    have hnew := hsound.textPlaces.lookup_eq_none_iff.mp hnone
    split_ifs at h
    · cases h
    · cases h
    · split at h
      · rename_i found href
        cases h
        obtain ⟨hcode, hvalue, hroom⟩ := value_of_nextRef href hsound.texts
        obtain ⟨rfl, -⟩ := nextRef_eq_ok href
        have hplace := List.idxOf_of_notMem hnew
        exact ⟨hcode, hvalue.trans hplace.symm, hplace.trans_le hroom,
          (if_neg (mt List.contains_iff_mem.mp hnew)).symm⟩
      · cases h

theorem enters_of_storage (hsound : builder.Sound) {name : Bytes} {arity : Arity}
    {type : ValueType} (h : builder.run (storage name arity type) = (.ok ref, next)) :
    builder.Enters (.storage name arity type) ref next := by
  rw [run_storage] at h
  split_ifs at h
  · cases h
  · split at h
    · cases h
    · split at h
      · rename_i found href
        cases h
        obtain ⟨hcode, hvalue, hroom⟩ := value_of_nextRef href hsound.storage
        obtain ⟨rfl, -⟩ := nextRef_eq_ok href
        exact ⟨hcode, hvalue, hroom, rfl⟩
      · cases h

theorem enters_of_slot {code : UInt8} (h : builder.run (slot code) = (.ok ref, next)) :
    ∃ ramClass, Tag.ofCode? code = some (.ram ramClass) ∧
      builder.Enters (.slot ramClass) ref next := by
  rw [run_slot] at h
  split at h
  · rename_i ramClass hcode
    split at h
    · rename_i found hfound
      cases h
      obtain ⟨rfl, hfits⟩ := cellOf_eq_ok hfound
      exact ⟨ramClass, hcode, (Tag.code_of_ofCode? hcode).symm, rfl, of_decide_eq_true hfits, rfl⟩
    · cases h
  · cases h

end Calls

/-! ### Cells and functions -/

section Changes

variable {builder next : Builder}

theorem pools_setCode (builder : Builder) (codeSection : Section) (cells : List Cell) :
    (builder.setCode codeSection cells).image.pools = builder.image.pools := by
  cases codeSection <;> rfl

theorem functions_setCode (builder : Builder) (codeSection : Section) (cells : List Cell) :
    (builder.setCode codeSection cells).image.functions = builder.image.functions := by
  cases codeSection <;> rfl

theorem emit_eq_ok {codeSection : Section} {code : UInt8} {value : UInt32}
    (h : builder.run (emit codeSection code value) = (.ok (), next)) :
    (Cell.mk code value).fits = true ∧
      next = builder.setCode codeSection (builder.image.code codeSection ++ [⟨code, value⟩]) := by
  rw [run_emit] at h
  split at h
  · cases h
  · rename_i cell hcell
    obtain ⟨rfl, hfits⟩ := cellOf_eq_ok hcell
    split_ifs at h
    · cases h
    · cases h
      exact ⟨hfits, rfl⟩

theorem patch_eq_ok {codeSection : Section} {address value : UInt32}
    (h : builder.run (patch codeSection address value) = (.ok (), next)) :
    ∃ old, (builder.image.code codeSection)[address.toNat]? = some old ∧
      (Cell.mk old.code value).fits = true ∧
      next = builder.setCode codeSection
        ((builder.image.code codeSection).set address.toNat ⟨old.code, value⟩) := by
  rw [run_patch] at h
  split at h
  · cases h
  · rename_i old hold
    split at h
    · cases h
    · rename_i cell hcell
      obtain ⟨rfl, hfits⟩ := cellOf_eq_ok hcell
      cases h
      exact ⟨old, hold, hfits, rfl⟩

theorem function_eq_ok {name : Bytes} (h : builder.run (function name) = (.ok (), next)) :
    ∃ functions, functions.entries =
        builder.image.functions.entries ++ [(name, UInt32.ofNat (builder.here .program))] ∧
      next = { builder with image.functions := functions } := by
  rw [run_function] at h
  split_ifs at h
  · cases h
  · split at h
    · rename_i functions hfunctions
      cases h
      exact ⟨functions, FunctionTable.entries_declare? hfunctions, rfl⟩
    · cases h

end Changes

/-! ### Positions -/

/-- A cell that marks a file or a line. -/
def IsMark (cell : Cell) : Prop :=
  (cell.code = Tag.file.code ∨ cell.code = Tag.line.code) ∧ cell.fits = true

/-- Only the program section changes, by marks at its end, and the last position. -/
def Marks (builder next : Builder) : Prop :=
  ∃ cells file line, (∀ cell ∈ cells, IsMark cell) ∧
    next = { builder with image.program := builder.image.program ++ cells, file, line }

section Positions

variable {builder middle next : Builder}

/-- Another last position is no mark in itself. -/
theorem Marks.mark (builder : Builder) (file : Bytes) (line : Int) :
    Marks builder { builder with file, line } :=
  ⟨[], file, line, List.forall_mem_nil _, by rw [List.append_nil]⟩

theorem Marks.refl (builder : Builder) : Marks builder builder :=
  .mark builder builder.file builder.line

theorem Marks.trans (hfirst : Marks builder middle) (hlast : Marks middle next) :
    Marks builder next := by
  obtain ⟨first, file, line, hmarks, rfl⟩ := hfirst
  obtain ⟨last, file, line, hmore, rfl⟩ := hlast
  refine ⟨first ++ last, file, line, List.forall_mem_append.mpr ⟨hmarks, hmore⟩, ?_⟩
  rw [List.append_assoc]

theorem marks_emit {tag : Tag} (htag : tag = .file ∨ tag = .line) (value : UInt32)
    (builder : Builder) : Marks builder (builder.run (emit .program tag.code value)).2 := by
  rcases hemit : builder.run (emit .program tag.code value) with ⟨error | ⟨⟩, next⟩
  · rw [isAtomic_emit _ _ _ builder error next hemit]
    exact .refl builder
  · obtain ⟨hfits, rfl⟩ := emit_eq_ok hemit
    refine ⟨[⟨tag.code, value⟩], builder.file, builder.line, ?_, rfl⟩
    exact List.forall_mem_singleton.mpr
      ⟨htag.imp (congrArg Tag.code) (congrArg Tag.code), hfits⟩

theorem marks_markLine (line : Int) (builder : Builder) :
    Marks builder (builder.run (markLine line)).2 := by
  rw [run_markLine]
  split_ifs
  · exact .refl builder
  · exact .refl builder
  · exact (Marks.mark builder builder.file line).trans (marks_emit (.inr rfl) _ _)

/-- A position asks for the text of its file if that is not the last file, and appends marks. -/
theorem position_cases (builder : Builder) (file : Bytes) (line : Int) :
    (file = builder.file ∨ ∃ error, (builder.run (text file)).1 = .error error) ∧
      Marks builder (builder.run (position file line)).2 ∨
    ∃ ref named, file ≠ builder.file ∧ builder.run (text file) = (.ok ref, named) ∧
      Marks named (builder.run (position file line)).2 := by
  rw [position, run_bind, run_markFile]
  by_cases hfile : file = builder.file
  · rw [if_pos hfile]
    exact Or.inl ⟨Or.inl hfile, marks_markLine line builder⟩
  · rw [if_neg hfile]
    rcases htext : builder.run (text file) with ⟨error | ref, named⟩
    · obtain rfl := isAtomic_text file builder error named htext
      exact Or.inl ⟨Or.inr ⟨error, rfl⟩, .refl named⟩
    · refine Or.inr ⟨ref, named, hfile, rfl, ?_⟩
      have hemit := marks_emit (.inl rfl) ref.value named
      dsimp only
      generalize named.run (emit .program Tag.file.code ref.value) = outcome at hemit ⊢
      rcases outcome with ⟨error | ⟨⟩, marked⟩
      · exact hemit
      · exact (hemit.trans (.mark marked file 0)).trans (marks_markLine line _)

end Positions

end Builder

/-! ### Steps -/

/-- The operand that a step asks a reference for. A literal asks for what it denotes. -/
def BuildStep.operand? : BuildStep → Option Operand
  | .number constant => some (.number constant)
  | .text constant => some (.text constant)
  | .literal word =>
    match word.kind with
    | .numeric => (Number.read? word.text).map .number
    | .text => some (.text word.text)
    | _ => none
  | .storage name arity type => some (.storage name arity type)
  | .slot code =>
    match Tag.ofCode? code with
    | some (.ram ramClass) => some (.slot ramClass)
    | _ => none
  | .emit _ _ _ | .patch _ _ _ | .position _ _ | .function _ => none

/-- An operand with the reference that a call gave for it. -/
structure Grant where
  operand : Operand
  ref : Cell
  deriving DecidableEq, Repr

namespace Builder

/-- The reference that a step hands out, if it does. -/
def handed? (builder : Builder) (step : BuildStep) : Option Cell :=
  match (builder.perform step).1 with
  | .ok ref => ref
  | .error _ => none

/-- The operand that a step asks for and the reference that it is given. A position asks for the
text of its file, unless that is the last file, and keeps the reference to itself. -/
def grant? (builder : Builder) (step : BuildStep) : Option Grant :=
  match step with
  | .position file _ =>
    if file = builder.file then none
    else
      match (builder.run (text file)).1 with
      | .ok ref => some ⟨.text file, ref⟩
      | .error _ => none
  | step =>
    match step.operand?, (builder.perform step).1 with
    | some operand, .ok (some ref) => some ⟨operand, ref⟩
    | _, _ => none

/-- What a step can do: what it hands out, what it grants, and the builder after it. -/
inductive Effect (builder : Builder) :
    BuildStep → Option Cell → Option Grant → Builder → Prop where
  /-- A step that fails changes nothing, unless it is a position. -/
  | fail {step : BuildStep} : Effect builder step none none builder
  | enter {step : BuildStep} {operand : Operand} {ref : Cell} {next : Builder}
      (hoperand : step.operand? = some operand) (henters : builder.Enters operand ref next) :
      Effect builder step (some ref) (some ⟨operand, ref⟩) next
  | emit {codeSection : Section} {code : UInt8} {value : UInt32} {next : Builder}
      (hemit : builder.run (emit codeSection code value) = (.ok (), next)) :
      Effect builder (.emit codeSection code value) none none next
  | patch {codeSection : Section} {address value : UInt32} {next : Builder}
      (hpatch : builder.run (patch codeSection address value) = (.ok (), next)) :
      Effect builder (.patch codeSection address value) none none next
  | function {name : Bytes} {next : Builder}
      (hfunction : builder.run (function name) = (.ok (), next)) :
      Effect builder (.function name) none none next
  | mark {file : Bytes} {line : Int} {next : Builder} (hmarks : Marks builder next) :
      Effect builder (.position file line) none none next
  | nameFile {file : Bytes} {line : Int} {ref : Cell} {named next : Builder}
      (henters : builder.Enters (.text file) ref named) (hmarks : Marks named next) :
      Effect builder (.position file line) none (some ⟨.text file, ref⟩) next

section Effects

variable {builder : Builder} {step : BuildStep}

/-- A step that is a call for a reference. -/
theorem effect_of_handOut {call : Build Cell}
    (hposition : ∀ file line, step ≠ .position file line) (hact : act step = some <$> call)
    (hatomic : IsAtomic call)
    (hcall : ∀ ref next, builder.run call = (.ok ref, next) →
      ∃ operand, step.operand? = some operand ∧ builder.Enters operand ref next) :
    Effect builder step (builder.handed? step) (builder.grant? step) (builder.perform step).2 := by
  rw [grant?.eq_2 builder step hposition, handed?, perform_eq builder hact]
  rcases hrun : builder.run call with ⟨error | ref, next⟩
  · obtain rfl := hatomic builder error next hrun
    cases step.operand? <;> exact .fail
  · obtain ⟨operand, hoperand, henters⟩ := hcall ref next hrun
    rw [hoperand]
    exact .enter hoperand henters

/-- A step that only changes the builder. -/
theorem effect_of_change {call : Build Unit} (hoperand : step.operand? = none)
    (hposition : ∀ file line, step ≠ .position file line)
    (hact : act step = (fun _ ↦ none) <$> call) (hatomic : IsAtomic call)
    (hcall : ∀ next, builder.run call = (.ok (), next) → Effect builder step none none next) :
    Effect builder step (builder.handed? step) (builder.grant? step) (builder.perform step).2 := by
  rw [grant?.eq_2 builder step hposition, handed?, perform_eq builder hact, hoperand]
  rcases hrun : builder.run call with ⟨error | ⟨⟩, next⟩
  · obtain rfl := hatomic builder error next hrun
    exact .fail
  · exact hcall next hrun

theorem exists_enters_of_literal (hsound : builder.Sound) {word : Word} {ref : Cell}
    {next : Builder} (h : builder.run (literal word) = (.ok ref, next)) :
    ∃ operand, (BuildStep.literal word).operand? = some operand ∧
      builder.Enters operand ref next := by
  unfold literal at h
  split at h
  · rename_i hkind
    split at h
    · rename_i number hnumber
      refine ⟨.number number, ?_, enters_of_number hsound h⟩
      simp [BuildStep.operand?, hkind, hnumber]
    · cases h
  · rename_i hkind
    refine ⟨.text word.text, ?_, enters_of_text hsound h⟩
    simp [BuildStep.operand?, hkind]
  · cases h

theorem perform_position (builder : Builder) (file : Bytes) (line : Int) :
    builder.perform (.position file line) =
      ((builder.run (position file line)).1.map fun _ ↦ none,
        (builder.run (position file line)).2) :=
  perform_eq builder rfl

theorem handed?_position (builder : Builder) (file : Bytes) (line : Int) :
    builder.handed? (.position file line) = none := by
  rw [handed?, perform_position]
  cases (builder.run (position file line)).1 <;> rfl

theorem effect_position (hsound : builder.Sound) (file : Bytes) (line : Int) :
    Effect builder (.position file line) none (builder.grant? (.position file line))
      (builder.run (position file line)).2 := by
  rcases position_cases builder file line with ⟨hnone, hmarks⟩ | ⟨ref, named, hfile, htext, hmarks⟩
  · have hgrant : builder.grant? (.position file line) = none := by
      rcases hnone with hfile | ⟨error, herror⟩
      · exact if_pos hfile
      · simp [grant?, herror]
    rw [hgrant]
    exact .mark hmarks
  · have hgrant : builder.grant? (.position file line) = some ⟨.text file, ref⟩ := by
      simp [grant?, hfile, htext]
    rw [hgrant]
    exact .nameFile (enters_of_text hsound htext) hmarks

theorem effect_perform (hsound : builder.Sound) (step : BuildStep) :
    Effect builder step (builder.handed? step) (builder.grant? step) (builder.perform step).2 := by
  cases step with
  | number value =>
    refine effect_of_handOut (by rintro _ _ ⟨⟩) rfl (isAtomic_number value) fun ref next h ↦ ?_
    exact ⟨_, rfl, enters_of_number hsound h⟩
  | text value =>
    refine effect_of_handOut (by rintro _ _ ⟨⟩) rfl (isAtomic_text value) fun ref next h ↦ ?_
    exact ⟨_, rfl, enters_of_text hsound h⟩
  | literal word =>
    refine effect_of_handOut (by rintro _ _ ⟨⟩) rfl (isAtomic_literal word) fun ref next h ↦ ?_
    exact exists_enters_of_literal hsound h
  | storage name arity type =>
    refine effect_of_handOut (by rintro _ _ ⟨⟩) rfl (isAtomic_storage name arity type)
      fun ref next h ↦ ?_
    exact ⟨_, rfl, enters_of_storage hsound h⟩
  | slot code =>
    refine effect_of_handOut (by rintro _ _ ⟨⟩) rfl (isAtomic_slot code) fun ref next h ↦ ?_
    obtain ⟨ramClass, hcode, henters⟩ := enters_of_slot h
    refine ⟨.slot ramClass, ?_, henters⟩
    simp [BuildStep.operand?, hcode]
  | emit codeSection code value =>
    exact effect_of_change rfl (by rintro _ _ ⟨⟩) rfl (isAtomic_emit codeSection code value)
      fun next h ↦ .emit h
  | patch codeSection address value =>
    exact effect_of_change rfl (by rintro _ _ ⟨⟩) rfl (isAtomic_patch codeSection address value)
      fun next h ↦ .patch h
  | position file line =>
    rw [handed?_position, perform_position]
    exact effect_position hsound file line
  | function name =>
    exact effect_of_change rfl (by rintro _ _ ⟨⟩) rfl (isAtomic_function name)
      fun next h ↦ .function h

end Effects

end Builder

end LineScript
