import LineScript.Proofs.Builder.Interning
import LineScript.Proofs.Image.Verification

/-!
Building with discipline. A run is disciplined when the cells that it emits are no references, or
are references that were handed out before, and when it patches no references. Positions and
functions may be used freely. The cells of a disciplined run never point outside their tables, and
its functions start inside the program section or at its end. So the image verifies unless a
function starts at the end, where no cell followed.
-/

set_option autoImplicit false
set_option relaxedAutoImplicit false

namespace LineScript

open Bytes

/-- Whether cells of a meaning refer to operands. -/
def Tag.isReference : Tag → Bool
  | .constant _ | .storage _ _ | .ram _ => true
  | _ => false

/-- Whether a cell has a meaning and is no reference. -/
def Cell.IsPlain (cell : Cell) : Prop :=
  ∃ tag ∈ cell.tag?, tag.isReference = false

instance (cell : Cell) : Decidable cell.IsPlain :=
  inferInstanceAs (Decidable (∃ tag ∈ cell.tag?, tag.isReference = false))

namespace Builder

/-- What a step may do once references were handed out. -/
def Permits (builder : Builder) (refs : List Cell) : BuildStep → Prop
  | .emit _ code value => (Cell.mk code value).IsPlain ∨ ⟨code, value⟩ ∈ refs
  | .patch codeSection address _ =>
    ∀ cell ∈ (builder.image.code codeSection)[address.toNat]?,
      ∀ tag ∈ cell.tag?, tag.isReference = false
  | _ => True

instance (builder : Builder) (refs : List Cell) (step : BuildStep) :
    Decidable (builder.Permits refs step) :=
  match step with
  | .emit _ _ _ => inferInstanceAs (Decidable (_ ∨ _))
  | .patch codeSection address _ =>
    inferInstanceAs (Decidable (∀ cell ∈ (builder.image.code codeSection)[address.toNat]?,
      ∀ tag ∈ cell.tag?, tag.isReference = false))
  | .number _ | .text _ | .literal _ | .storage _ _ _ | .slot _ | .position _ _ | .function _ =>
    inferInstanceAs (Decidable True)

/-- Whether every step that succeeds does what it may do, given the references that were handed out
before it. -/
def Disciplined (builder : Builder) (refs : List Cell) : List BuildStep → Prop
  | [] => True
  | step :: rest =>
    ((builder.perform step).1.isOk = true → builder.Permits refs step) ∧
      Disciplined (builder.perform step).2 (refs ++ (builder.handed? step).toList) rest

instance Disciplined.decidable : (builder : Builder) → (refs : List Cell) →
    (steps : List BuildStep) → Decidable (builder.Disciplined refs steps)
  | _, _, [] => inferInstanceAs (Decidable True)
  | builder, refs, step :: rest =>
    have := decidable (builder.perform step).2 (refs ++ (builder.handed? step).toList) rest
    inferInstanceAs (Decidable (_ ∧ _))

end Builder

/-! ### Verification -/

/-- Whether a cell stands for something: it is plain or a reference to an operand that exists. -/
def Pools.Supports (pools : Pools) (cell : Cell) : Prop :=
  cell.IsPlain ∨ ∃ operand, pools.Denotes cell operand

theorem Builder.IsMark.isPlain {cell : Cell} (h : IsMark cell) : cell.IsPlain := by
  rcases h.1 with hcode | hcode
  · exact ⟨.file, (cell.tag?_eq_some_iff _).mpr hcode, rfl⟩
  · exact ⟨.line, (cell.tag?_eq_some_iff _).mpr hcode, rfl⟩

namespace Image

variable {image : Image} {cell : Cell}

theorem operands?_of_isReference {tag : Tag} (h : tag.isReference = false) :
    image.operands? tag = none := by
  cases tag with
  | constant | storage | ram => cases h
  | _ => rfl

theorem exists_operands?_of_holds {index : Nat} {operand : Operand}
    (h : image.pools.Holds index operand) :
    ∃ count, image.operands? operand.tag = some count ∧ index < count := by
  cases operand with
  | number | text | storage => exact ⟨_, rfl, (List.getElem?_eq_some_iff.mp h).1⟩
  | slot ramClass => exact ⟨_, rfl, h⟩

theorem cellFault?_eq_none (hfits : cell.fits = true) (h : image.pools.Supports cell) :
    image.cellFault? cell = none := by
  unfold cellFault?
  rcases h with ⟨tag, htag, hplain⟩ | ⟨operand, hcode, hholds⟩
  · rw [Option.mem_def.mp htag]
    simp [hfits, operands?_of_isReference hplain]
  · obtain ⟨count, hcount, hlt⟩ := exists_operands?_of_holds hholds
    simp [(cell.tag?_eq_some_iff _).mpr hcode, hfits, hcount, hlt]

/-- An image without faulty cells can only have a fault in its functions. -/
theorem fault?_eq_functionFault?
    (h : ∀ codeSection, ∀ cell ∈ image.code codeSection, image.cellFault? cell = none) :
    image.fault? = image.functionFault? := by
  have hinit : image.cellsFault? .init 0 image.init = none :=
    (image.cellsFault?_eq_none_iff _ _ _).mpr (h .init)
  have hprogram : image.cellsFault? .program 0 image.program = none :=
    (image.cellsFault?_eq_none_iff _ _ _).mpr (h .program)
  rw [fault?, hinit, hprogram]
  rfl

theorem exists_of_functionFault? {fault : ImageFault} (h : image.functionFault? = some fault) :
    ∃ name address, (name, address) ∈ image.functions.entries ∧
      image.program.length ≤ address.toNat ∧
      fault = .strayFunction name address image.program.length := by
  obtain ⟨name, address, hname, hstray, -, rfl⟩ := first_of_functionFault? h
  have hentry := (image.functions.address?_eq_some_iff _ _).mp hname
  exact ⟨name, address, hentry, hstray, rfl⟩

end Image

/-! ### Steps -/

/-- What disciplined steps keep: references stand for operands, cells stand for something, and no
function starts beyond the end of the program section. -/
structure Image.Intact (image : Image) (refs : List Cell) : Prop where
  refs : ∀ ref ∈ refs, ∃ operand, image.pools.Denotes ref operand
  cells : ∀ codeSection, ∀ cell ∈ image.code codeSection, image.pools.Supports cell
  entries : ∀ entry ∈ image.functions.entries, entry.2.toNat ≤ image.program.length

namespace Image.Intact

open Builder

variable {builder next : Builder} {refs : List Cell}

/-- Of references the first ones may be kept. -/
theorem of_append {image : Image} {more : List Cell} (h : image.Intact (refs ++ more)) :
    image.Intact refs :=
  { h with refs := (List.forall_mem_append.mp h.refs).1 }

theorem enters (h : builder.image.Intact refs) {operand : Operand} {ref : Cell}
    (henters : builder.Enters operand ref next) : next.image.Intact (refs ++ [ref]) := by
  have hold : ∀ {cell other}, builder.image.pools.Denotes cell other →
      next.image.pools.Denotes cell other :=
    fun hdenotes ↦ henters.pools_eq ▸ hdenotes.enter henters.room
  have himage := henters.next_eq ▸ image_enter builder operand
  have hcode : ∀ codeSection, next.image.code codeSection = builder.image.code codeSection := by
    rw [himage]
    rintro (_ | _) <;> rfl
  constructor
  · refine List.forall_mem_append.mpr ⟨fun cell hcell ↦ ?_, ?_⟩
    · exact (h.refs cell hcell).imp fun _ ↦ hold
    · exact List.forall_mem_singleton.mpr ⟨operand, henters.denotes⟩
  · intro codeSection cell hcell
    rw [hcode] at hcell
    exact (h.cells codeSection cell hcell).imp_right fun hdenotes ↦ hdenotes.imp fun _ ↦ hold
  · rw [himage]
    exact h.entries

/-- A section may get other cells that stand for something, if it does not shrink. -/
theorem setCode (h : builder.image.Intact refs) (codeSection : Section) {cells : List Cell}
    (hlength : (builder.image.code codeSection).length ≤ cells.length)
    (hcells : ∀ cell ∈ cells, builder.image.pools.Supports cell) :
    (builder.setCode codeSection cells).image.Intact refs := by
  constructor
  · rw [pools_setCode]
    exact h.refs
  · intro other
    rw [pools_setCode, code_setCode]
    split_ifs
    · exact hcells
    · exact h.cells other
  · intro entry hentry
    rw [functions_setCode] at hentry
    refine Nat.le_trans (h.entries entry hentry) ?_
    cases codeSection with
    | init => exact Nat.le_refl _
    | program => exact hlength

theorem append (h : builder.image.Intact refs) (codeSection : Section) {cells : List Cell}
    (hcells : ∀ cell ∈ cells, builder.image.pools.Supports cell) :
    (builder.setCode codeSection (builder.image.code codeSection ++ cells)).image.Intact refs := by
  refine h.setCode codeSection ?_ (List.forall_mem_append.mpr ⟨h.cells codeSection, hcells⟩)
  rw [List.length_append]
  exact Nat.le_add_right _ _

theorem marks (h : builder.image.Intact refs) (hmarks : Marks builder next) :
    next.image.Intact refs := by
  obtain ⟨cells, file, line, hcells, rfl⟩ := hmarks
  exact h.append .program fun cell hcell ↦ .inl (hcells cell hcell).isPlain

theorem emit (h : builder.image.Intact refs) {codeSection : Section} {code : UInt8}
    {value : UInt32} (hemit : builder.run (Builder.emit codeSection code value) = (.ok (), next))
    (hpermits : builder.Permits refs (.emit codeSection code value)) : next.image.Intact refs := by
  obtain ⟨-, rfl⟩ := emit_eq_ok hemit
  exact h.append codeSection (List.forall_mem_singleton.mpr (hpermits.imp_right (h.refs _)))

/-- A cell that is patched keeps its meaning, so it stays plain. -/
theorem patch (h : builder.image.Intact refs) {codeSection : Section} {address value : UInt32}
    (hpatch : builder.run (Builder.patch codeSection address value) = (.ok (), next))
    (hpermits : builder.Permits refs (.patch codeSection address value)) :
    next.image.Intact refs := by
  obtain ⟨old, hold, -, rfl⟩ := patch_eq_ok hpatch
  have hnoref : ∀ tag ∈ old.tag?, tag.isReference = false := hpermits old hold
  have hplain : (Cell.mk old.code value).IsPlain := by
    rcases h.cells codeSection old (List.mem_of_getElem? hold) with hplain | ⟨operand, hcode, -⟩
    · exact hplain
    · have htag := (old.tag?_eq_some_iff _).mpr hcode
      exact ⟨operand.tag, htag, hnoref _ htag⟩
  refine h.setCode codeSection (by rw [List.length_set]) fun cell hcell ↦ ?_
  rcases List.mem_or_eq_of_mem_set hcell with hcell | rfl
  · exact h.cells codeSection cell hcell
  · exact .inl hplain

/-- A function starts at the end of the program section. -/
theorem function (h : builder.image.Intact refs) {name : Bytes}
    (hfunction : builder.run (Builder.function name) = (.ok (), next)) :
    next.image.Intact refs := by
  obtain ⟨functions, hentries, rfl⟩ := function_eq_ok hfunction
  refine ⟨h.refs, h.cells, ?_⟩
  change ∀ entry ∈ functions.entries, entry.2.toNat ≤ builder.image.program.length
  rw [hentries]
  refine List.forall_mem_append.mpr ⟨h.entries, List.forall_mem_singleton.mpr ?_⟩
  change (UInt32.ofNat builder.image.program.length).toNat ≤ _
  rw [UInt32.toNat_ofNat']
  exact Nat.mod_le _ _

theorem effect (h : builder.image.Intact refs) {step : BuildStep} {given : Option Cell}
    {grant : Option Grant} (heffect : Effect builder step given grant next)
    (hpermits : (builder.perform step).1.isOk = true → builder.Permits refs step) :
    next.image.Intact (refs ++ given.toList) := by
  have hkeep : ∀ {image : Image}, image.Intact refs →
      image.Intact (refs ++ (none : Option Cell).toList) := by
    intro image hintact
    rwa [Option.toList_none, List.append_nil]
  cases heffect with
  | fail => exact hkeep h
  | enter hoperand henters => exact h.enters henters
  | emit hemit => exact hkeep (h.emit hemit (hpermits (isOk_perform rfl hemit)))
  | patch hpatch => exact hkeep (h.patch hpatch (hpermits (isOk_perform rfl hpatch)))
  | function hfunction => exact hkeep (h.function hfunction)
  | mark hmarks => exact hkeep (h.marks hmarks)
  | nameFile henters hmarks => exact hkeep ((h.enters henters).marks hmarks).of_append

theorem empty : Image.Intact {} [] where
  refs := List.forall_mem_nil _
  cells := by rintro (_ | _) <;> exact List.forall_mem_nil _
  entries := List.forall_mem_nil _

end Image.Intact

namespace Builder

/-! ### Runs -/

theorem exists_intact_performAll {builder : Builder} {refs : List Cell} {steps : List BuildStep}
    (hsound : builder.Sound) (hintact : builder.image.Intact refs)
    (h : builder.Disciplined refs steps) :
    ∃ given, (builder.performAll steps).image.Intact given := by
  induction steps generalizing builder refs with
  | nil => exact ⟨refs, hintact⟩
  | cons step rest ih =>
    obtain ⟨hpermits, hrest⟩ := h
    have hnext := hintact.effect (effect_perform hsound step) hpermits
    exact ih (hsound.perform step) hnext hrest

theorem exists_finish_iff (builder : Builder) :
    (∃ image, builder.finish = .ok image) ↔ builder.image.fault? = none := by
  constructor
  · rintro ⟨image, himage⟩
    obtain ⟨rfl, hverified⟩ := image_of_finish himage
    exact hverified
  · intro hverified
    exact ⟨builder.image, by rw [finish, hverified]⟩

theorem fault?_of_finish {builder : Builder} {fault : ImageFault}
    (h : builder.finish = .error fault) : builder.image.fault? = some fault := by
  unfold finish at h
  split at h
  · rename_i found hfound
    cases h
    exact hfound
  · cases h

/-- When finishing fails, and how: only when a function starts at the end of the program section,
and the report then names such a function. -/
structure FailsOnlyAtEnd (builder : Builder) : Prop where
  succeeds_iff : (∃ image, builder.finish = .ok image) ↔
    ∀ entry ∈ builder.image.functions.entries, entry.2.toNat ≠ builder.here .program
  report : ∀ fault, builder.finish = .error fault →
    ∃ name address detail, (name, address) ∈ builder.image.functions.entries ∧
      address.toNat = builder.here .program ∧
      fault.failure = .single
        { category := .structural, message := utf8 "Function entry out of range"
          subject := some name, detail }

/-- A disciplined run can be finished unless a function starts at the end. -/
theorem failsOnlyAtEnd_of_disciplined (limits : List Int) (steps : List BuildStep)
    (h : Disciplined (limits.foldl withTextLimit {}) [] steps) :
    FailsOnlyAtEnd ((limits.foldl withTextLimit {}).performAll steps) := by
  have hsound := Sound.empty.withTextLimits limits
  have himage := image_withTextLimits {} limits
  generalize limits.foldl withTextLimit {} = start at *
  obtain ⟨given, hintact⟩ := exists_intact_performAll hsound (himage ▸ Image.Intact.empty) h
  have hcells := (hsound.performAll steps).cells
  generalize start.performAll steps = last at *
  have hfault : last.image.fault? = last.image.functionFault? :=
    Image.fault?_eq_functionFault? fun codeSection cell hcell ↦
      Image.cellFault?_eq_none (hcells codeSection cell hcell)
        (hintact.cells codeSection cell hcell)
  constructor
  · rw [exists_finish_iff, hfault, Image.functionFault?_eq_none_iff]
    exact forall₂_congr fun entry hentry ↦ (hintact.entries entry hentry).lt_iff_ne
  · intro fault hfailed
    have hstray : last.image.functionFault? = some fault := hfault ▸ fault?_of_finish hfailed
    obtain ⟨name, address, hentry, hbeyond, rfl⟩ := Image.exists_of_functionFault? hstray
    have hend := Nat.le_antisymm (hintact.entries _ hentry) hbeyond
    exact ⟨name, address, _, hentry, hend, rfl⟩

/-- A run that takes all kinds of references and both sections: jumps are patched, a reference and a
text are too large, and a function is at the end. -/
def carefulSteps : List BuildStep :=
  [.number ⟨0x3FF0000000000000⟩, .literal ⟨.text, utf8 "on"⟩,
   .storage (utf8 "total") .single .numeric, .slot 170, .emit .init 130 0, .emit .init 140 0,
   .position (utf8 "main") 3, .function (utf8 "f"), .emit .program 4 0, .emit .program 131 0,
   .emit .program 170 0, .patch .program 2 5, .text (utf8 "overlong"),
   .emit .program 131 0x1000000, .patch .program 9 0, .emit .program 0 0, .function (utf8 "g")]

theorem failsOnlyAtEnd_carefulSteps :
    Disciplined ([5].foldl withTextLimit {}) [] carefulSteps ∧
      FailsOnlyAtEnd (([5].foldl withTextLimit {}).performAll carefulSteps) :=
  have hdisciplined : Disciplined ([5].foldl withTextLimit {}) [] carefulSteps := by
    decide +kernel
  ⟨hdisciplined, failsOnlyAtEnd_of_disciplined _ _ hdisciplined⟩

end Builder

end LineScript
