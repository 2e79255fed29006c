import LineScript.Proofs.Image.Canonical

/-!
What verification asks for. A cell must have a meaning and a value of 24 bits, and a reference must
point inside the pool, the table or the class of memory that belongs to its meaning. A function must
start inside the program section. An image verifies exactly when all its cells and functions keep to
this. Otherwise the report is about the first cell that does not, those of the init section before
those of the program section, or about the function that comes first in byte order.
-/

set_option autoImplicit false
set_option relaxedAutoImplicit false

namespace LineScript

open Bytes

theorem Cell.tag?_eq_some_iff (cell : Cell) (tag : Tag) :
    cell.tag? = some tag ↔ cell.code = tag.code := by
  constructor
  · intro h
    exact (Tag.code_of_ofCode? h).symm
  · intro h
    rw [Cell.tag?, h, Tag.ofCode?_code]

namespace Image

/-! ### Conditions -/

/-- Whether an index lies inside what cells of a meaning refer to. Cells that are no references may
have any value. -/
def PointsInside (image : Image) (index : Nat) : Tag → Prop
  | .constant .numeric => index < image.numbers.length
  | .constant .text => index < image.texts.length
  | .storage _ _ => index < image.storage.length
  | .ram (.values .single .numeric) => index < image.ram.numericVariables.toNat
  | .ram (.values .single .text) => index < image.ram.textVariables.toNat
  | .ram (.values .array .numeric) => index < image.ram.numericArrays.toNat
  | .ram (.values .array .text) => index < image.ram.textArrays.toNat
  | .ram .data => index < image.ram.dataReferences.toNat
  | _ => True

/-- What is asked of a cell. -/
structure Accepts (image : Image) (cell : Cell) : Prop where
  defined : ∃ tag : Tag, cell.code = tag.code
  fits : cell.value.toNat ≤ 2 ^ 24 - 1
  inside : ∀ tag : Tag, cell.code = tag.code → image.PointsInside cell.value.toNat tag

/-- What is asked of an image. -/
structure Verified (image : Image) : Prop where
  cells : ∀ codeSection, ∀ cell ∈ image.code codeSection, image.Accepts cell
  functions : ∀ name address, image.functions.address? name = some address →
    address.toNat < image.program.length

/-- The message for the first condition that a cell does not meet. -/
inductive Breach (image : Image) (cell : Cell) : Bytes → Prop where
  | undefined (hundefined : ∀ tag : Tag, cell.code ≠ tag.code) :
      Breach image cell (utf8 "Unknown word type")
  | oversized {tag : Tag} (hdefined : cell.code = tag.code)
      (hlarge : 2 ^ 24 - 1 < cell.value.toNat) : Breach image cell (utf8 "Value exceeds 24 bits")
  | outside {tag : Tag} (hdefined : cell.code = tag.code) (hfits : cell.value.toNat ≤ 2 ^ 24 - 1)
      (houtside : ¬ image.PointsInside cell.value.toNat tag) :
      Breach image cell (utf8 "Reference out of range")

/-- The report on the first cell that is not accepted or, if all cells are, on the first function
that starts outside the program section. -/
inductive FirstViolation (image : Image) : Diagnostic → Prop where
  | init {index : Nat} {cell : Cell} {message : Bytes}
      (hbefore : ∀ earlier ∈ image.init.take index, image.Accepts earlier)
      (hcell : image.init[index]? = some cell) (hbreach : image.Breach cell message) :
      FirstViolation image
        { category := .structural, message, subject := some cell.text
          detail := utf8 "at init[" ++ decimal index ++ utf8 "]" }
  | program {index : Nat} {cell : Cell} {message : Bytes}
      (hinit : ∀ earlier ∈ image.init, image.Accepts earlier)
      (hbefore : ∀ earlier ∈ image.program.take index, image.Accepts earlier)
      (hcell : image.program[index]? = some cell) (hbreach : image.Breach cell message) :
      FirstViolation image
        { category := .structural, message, subject := some cell.text
          detail := utf8 "at program[" ++ decimal index ++ utf8 "]" }
  | function {name : Bytes} {address : UInt32}
      (hcells : ∀ codeSection, ∀ cell ∈ image.code codeSection, image.Accepts cell)
      (hname : image.functions.address? name = some address)
      (hstray : image.program.length ≤ address.toNat)
      (hfirst : ∀ other target, image.functions.address? other = some target →
        image.program.length ≤ target.toNat → name ≤ other) :
      FirstViolation image
        { category := .structural, message := utf8 "Function entry out of range"
          subject := some name
          detail := utf8 "(address " ++ decimal address.toNat ++ utf8 ", program size " ++
            decimal image.program.length ++ utf8 ")" }

/-! ### Cells -/

section Cells

variable {image : Image} {cell : Cell}

/-- Each meaning is compared with the size of its own pool, table or class of memory. -/
theorem any_operands?_iff (image : Image) (index : Nat) (tag : Tag) :
    (image.operands? tag).any (· ≤ index) = true ↔ ¬ image.PointsInside index tag := by
  cases tag with
  | constant type => cases type <;> simp [operands?, PointsInside]
  | storage arity type => simp [operands?, PointsInside]
  | ram ramClass =>
    rcases ramClass with ⟨_ | _, _ | _⟩ | _ <;> simp [operands?, PointsInside, RamSizes.size]
  | _ => simp [operands?, PointsInside]

theorem cellFault?_of_undefined (h : ∀ tag : Tag, cell.code ≠ tag.code) :
    image.cellFault? cell = some .unknownType := by
  have htag : cell.tag? = none := by
    rw [Option.eq_none_iff_forall_ne_some]
    intro tag htag
    exact h tag ((cell.tag?_eq_some_iff tag).mp htag)
  rw [cellFault?, htag]

theorem cellFault?_of_defined {tag : Tag} (h : cell.code = tag.code) :
    image.cellFault? cell =
      if 2 ^ 24 - 1 < cell.value.toNat then some .oversized
      else if (image.operands? tag).any (· ≤ cell.value.toNat) then some .outOfRange
      else none := by
  have hfits : (!cell.fits) = true ↔ 2 ^ 24 - 1 < cell.value.toNat := by
    rw [Bool.not_eq_true', Cell.fits, decide_eq_false_iff_not, Nat.not_le]
    rfl
  rw [cellFault?, (cell.tag?_eq_some_iff tag).mpr h]
  simp only [hfits]

/-- The first condition that fails decides the fault, and its message. -/
theorem breach_of_cellFault? {fault : CellFault} (h : image.cellFault? cell = some fault) :
    image.Breach cell fault.message := by
  by_cases hdefined : ∃ tag : Tag, cell.code = tag.code
  · obtain ⟨tag, htag⟩ := hdefined
    rw [cellFault?_of_defined htag] at h
    split_ifs at h with hlarge houtside
    · cases h
      exact .oversized htag hlarge
    · cases h
      exact .outside htag (Nat.not_lt.mp hlarge) ((image.any_operands?_iff _ _).mp houtside)
  · rw [not_exists] at hdefined
    rw [cellFault?_of_undefined hdefined] at h
    cases h
    exact .undefined hdefined

theorem cellFault?_eq_none_iff (image : Image) (cell : Cell) :
    image.cellFault? cell = none ↔ image.Accepts cell := by
  constructor
  · intro h
    have hdefined : ∃ tag : Tag, cell.code = tag.code := by
      by_contra hundefined
      rw [cellFault?_of_undefined (not_exists.mp hundefined)] at h
      cases h
    have hfits : cell.value.toNat ≤ 2 ^ 24 - 1 := by
      obtain ⟨tag, htag⟩ := hdefined
      by_contra hlarge
      rw [cellFault?_of_defined htag, if_pos (Nat.not_le.mp hlarge)] at h
      cases h
    refine ⟨hdefined, hfits, fun tag htag ↦ ?_⟩
    by_contra houtside
    rw [cellFault?_of_defined htag, if_neg (Nat.not_lt.mpr hfits),
      if_pos ((image.any_operands?_iff _ _).mpr houtside)] at h
    cases h
  · rintro ⟨⟨tag, htag⟩, hfits, hinside⟩
    have hcount := mt (image.any_operands?_iff _ _).mp (not_not.mpr (hinside tag htag))
    rw [cellFault?_of_defined htag, if_neg (Nat.not_lt.mpr hfits), if_neg hcount]

/-- The search through a section stops at the first cell that is not accepted. -/
theorem exists_of_cellsFault? {codeSection : Section} {start : Nat} {cells : List Cell}
    {fault : ImageFault} (h : image.cellsFault? codeSection start cells = some fault) :
    ∃ index cell cellFault, (∀ earlier ∈ cells.take index, image.Accepts earlier) ∧
      cells[index]? = some cell ∧ image.cellFault? cell = some cellFault ∧
      fault = .faultyCell cellFault codeSection (start + index) cell := by
  induction cells generalizing start with
  | nil => cases h
  | cons cell rest ih =>
    rw [cellsFault?] at h
    cases hcell : image.cellFault? cell with
    | some cellFault =>
      rw [hcell] at h
      exact ⟨0, cell, cellFault, List.forall_mem_nil _, rfl, hcell, (Option.some.inj h).symm⟩
    | none =>
      rw [hcell] at h
      obtain ⟨index, bad, cellFault, hbefore, hbad, hfault, rfl⟩ := ih h
      refine ⟨index + 1, bad, cellFault, ?_, hbad, hfault, ?_⟩
      · exact List.forall_mem_cons.mpr ⟨(image.cellFault?_eq_none_iff cell).mp hcell, hbefore⟩
      · rw [Nat.add_right_comm, Nat.add_assoc]

theorem cellsFault?_eq_none_iff_accepts (image : Image) (codeSection : Section) :
    image.cellsFault? codeSection 0 (image.code codeSection) = none ↔
      ∀ cell ∈ image.code codeSection, image.Accepts cell := by
  rw [cellsFault?_eq_none_iff]
  exact forall₂_congr fun cell _ ↦ image.cellFault?_eq_none_iff cell

/-- Accepted references to constants and to the storage find what they refer to. -/
theorem Accepts.exists_constant (h : image.Accepts cell) {type : ValueType}
    (hcode : cell.code = (Tag.constant type).code) : ∃ word, image.constant cell = .ok word := by
  have hinside := h.inside _ hcode
  rw [constant, (cell.tag?_eq_some_iff _).mpr hcode]
  cases type with
  | numeric => exact ⟨_, by rw [List.getElem?_eq_getElem hinside]⟩
  | text => exact ⟨_, by rw [List.getElem?_eq_getElem hinside]⟩

theorem Accepts.exists_storage (h : image.Accepts cell) {arity : Arity} {type : ValueType}
    (hcode : cell.code = (Tag.storage arity type).code) :
    ∃ name, image.storage[cell.value.toNat]? = some name :=
  ⟨_, List.getElem?_eq_getElem (h.inside _ hcode)⟩

end Cells

/-! ### Functions -/

/-- Of the functions that start outside the program section the first in byte order is found. -/
theorem first_of_functionFault? {image : Image} {fault : ImageFault}
    (h : image.functionFault? = some fault) :
    ∃ name address, image.functions.address? name = some address ∧
      image.program.length ≤ address.toNat ∧
      (∀ other target, image.functions.address? other = some target →
        image.program.length ≤ target.toNat → name ≤ other) ∧
      fault = .strayFunction name address image.program.length := by
  obtain ⟨⟨name, address⟩, hfound, rfl⟩ := Option.map_eq_some_iff.mp h
  obtain ⟨hstray, before, after, hsorted, hbefore⟩ := List.find?_eq_some_iff_append.mp hfound
  have hentry : (name, address) ∈ image.functions.sorted := List.mem_of_find?_eq_some hfound
  refine ⟨name, address, ?_, of_decide_eq_true hstray, ?_, rfl⟩
  · exact (image.functions.address?_eq_some_iff _ _).mpr ((image.functions.mem_sorted _).mp hentry)
  · intro other target hother hbeyond
    have hordered := pairwise_mergeSort Prod.fst image.functions.entries
    change image.functions.sorted.Pairwise _ at hordered
    have hmem := (image.functions.mem_sorted _).mpr
      ((image.functions.address?_eq_some_iff _ _).mp hother)
    rw [hsorted] at hordered hmem
    rcases List.mem_append.mp hmem with hearlier | hlater
    · have hinside := hbefore _ hearlier
      simp [hbeyond] at hinside
    · rcases List.mem_cons.mp hlater with hsame | hlater
      · cases hsame
        exact List.le_refl _
      · exact (List.pairwise_cons.mp (List.pairwise_append.mp hordered).2.1).1 _ hlater

/-! ### Images -/

theorem fault?_eq_none_iff_verified (image : Image) : image.fault? = none ↔ image.Verified := by
  rw [fault?_eq_none_iff, functionFault?_eq_none_iff]
  have hinit := image.cellsFault?_eq_none_iff_accepts .init
  have hprogram := image.cellsFault?_eq_none_iff_accepts .program
  constructor
  · rintro ⟨hi, hp, hfunctions⟩
    refine ⟨?_, fun name address hname ↦ ?_⟩
    · rintro (_ | _)
      · exact hinit.mp hi
      · exact hprogram.mp hp
    · exact hfunctions _ ((image.functions.address?_eq_some_iff _ _).mp hname)
  · intro h
    refine ⟨hinit.mpr (h.cells .init), hprogram.mpr (h.cells .program), fun entry hentry ↦ ?_⟩
    exact h.functions entry.1 entry.2 ((image.functions.address?_eq_some_iff _ _).mpr hentry)

theorem firstViolation_of_fault? {image : Image} {fault : ImageFault}
    (h : image.fault? = some fault) :
    ∃ report, fault.failure = .single report ∧ image.FirstViolation report := by
  have haccepts := fun codeSection ↦ (image.cellsFault?_eq_none_iff_accepts codeSection).mp
  rw [fault?, Option.orElse_eq_some, Option.orElse_eq_some] at h
  rcases h with hinit | ⟨hinit, hprogram | ⟨hprogram, hfunction⟩⟩
  · obtain ⟨index, cell, cellFault, hbefore, hcell, hfault, rfl⟩ := exists_of_cellsFault? hinit
    rw [Nat.zero_add]
    exact ⟨_, rfl, .init hbefore hcell (breach_of_cellFault? hfault)⟩
  · obtain ⟨index, cell, cellFault, hbefore, hcell, hfault, rfl⟩ := exists_of_cellsFault? hprogram
    rw [Nat.zero_add]
    exact ⟨_, rfl, .program (haccepts .init hinit) hbefore hcell (breach_of_cellFault? hfault)⟩
  · obtain ⟨name, address, hname, hstray, hfirst, rfl⟩ := first_of_functionFault? hfunction
    refine ⟨_, rfl, .function ?_ hname hstray hfirst⟩
    rintro (_ | _)
    · exact haccepts .init hinit
    · exact haccepts .program hprogram

/-- An image has no fault exactly when it meets all conditions; a fault is reported for the first
violation; and the references to constants in an image without faults can be resolved. -/
theorem verified_or_first_violation (image : Image) :
    (image.fault? = none ↔ image.Verified) ∧
      (∀ fault, image.fault? = some fault →
        ∃ report, fault.failure = .single report ∧ image.FirstViolation report) ∧
      (image.fault? = none → ∀ codeSection, ∀ cell ∈ image.code codeSection, ∀ type,
        cell.code = (Tag.constant type).code → ∃ word, image.constant cell = .ok word) := by
  refine ⟨image.fault?_eq_none_iff_verified, fun fault ↦ firstViolation_of_fault?, ?_⟩
  intro hverified codeSection cell hcell type hcode
  have haccepts := (image.fault?_eq_none_iff_verified.mp hverified).cells codeSection cell hcell
  exact haccepts.exists_constant hcode

end Image

end LineScript
