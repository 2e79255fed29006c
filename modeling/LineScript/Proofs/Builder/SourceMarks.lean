import LineScript.Proofs.Builder.Positions

/-!
What the marks in the program section tell. Reading the section from its start, a file mark gives
the file of what follows and a line mark its line; the line is 0 until it is marked. If only
positions make such marks, the file that is marked after a position is the file of the position.
The line that is marked is its line, cut to 32 bits, unless the same position was refused before: a
line that is refused counts as marked. So no line of more than 24 bits is ever told.
-/

set_option autoImplicit false
set_option relaxedAutoImplicit false

namespace LineScript

open Bytes

/-! ### Reading the marks -/

/-- The position that cells lead to: where the text of its file stands, if a file is marked, and its
line. -/
structure Place where
  file? : Option UInt32 := none
  line : UInt32 := 0
  deriving DecidableEq, Repr

/-- The position after one more cell. -/
def Place.pass (place : Place) (cell : Cell) : Place :=
  match cell.tag? with
  | some .file => { file? := some cell.value }
  | some .line => { place with line := cell.value }
  | _ => place

/-- Whether a cell marks a file or a line. -/
def Cell.marksPosition (cell : Cell) : Bool :=
  cell.tag? == some .file || cell.tag? == some .line

namespace Image

/-- The position at the end of the program section. -/
def place (image : Image) : Place :=
  image.program.foldl Place.pass {}

/-- The line that is marked last for the file, or 0. -/
def markedLine (image : Image) : Int :=
  image.place.line.toNat

/-- The file that is marked last, if its text exists. It is empty if none is marked. -/
def markedFile? (image : Image) : Option Bytes :=
  match image.place.file? with
  | none => some []
  | some index => image.texts[index.toNat]?

end Image

namespace Place

theorem pass_of_not_marksPosition {cell : Cell} (h : cell.marksPosition = false) (place : Place) :
    place.pass cell = place := by
  unfold pass
  split
  · rename_i htag
    simp [Cell.marksPosition, htag] at h
  · rename_i htag
    simp [Cell.marksPosition, htag] at h
  · rfl

/-- A cell that marks nothing may be replaced by another such cell. -/
theorem foldl_pass_set {cells : List Cell} {index : Nat} {old new : Cell}
    (hold : cells[index]? = some old) (hplain : old.marksPosition = false)
    (hnew : new.marksPosition = false) (place : Place) :
    (cells.set index new).foldl pass place = cells.foldl pass place := by
  obtain ⟨hlt, rfl⟩ := List.getElem?_eq_some_iff.mp hold
  calc (cells.set index new).foldl pass place
      = (cells.drop (index + 1)).foldl pass (((cells.take index).foldl pass place).pass new) := by
        rw [List.set_eq_take_append_cons_drop, if_pos hlt, List.foldl_append, List.foldl_cons]
    _ = (cells.drop (index + 1)).foldl pass
          (((cells.take index).foldl pass place).pass cells[index]) := by
        rw [pass_of_not_marksPosition hnew, pass_of_not_marksPosition hplain]
    _ = cells.foldl pass place := by
        rw [← List.foldl_cons, ← List.drop_eq_getElem_cons hlt, ← List.foldl_append,
          List.take_append_drop]

/-- Cells with values of 24 bits tell lines of 24 bits. -/
theorem line_foldl_le {cells : List Cell} (hcells : ∀ cell ∈ cells, cell.fits = true)
    {place : Place} (h : place.line.toNat ≤ maxValue) :
    (cells.foldl pass place).line.toNat ≤ maxValue := by
  induction cells generalizing place with
  | nil => exact h
  | cons cell cells ih =>
    obtain ⟨hcell, hrest⟩ := List.forall_mem_cons.mp hcells
    refine ih hrest ?_
    unfold pass
    split
    · exact Nat.zero_le _
    · exact of_decide_eq_true hcell
    · exact h

end Place

namespace Builder

/-! ### Steps that make no marks -/

/-- Whether a step leaves the marks of the program section alone, unless it is a position. -/
def LeavesMarks (builder : Builder) : BuildStep → Prop
  | .emit .program code value => (Cell.mk code value).marksPosition = false
  | .patch .program address _ =>
    ∀ cell ∈ builder.image.program[address.toNat]?, cell.marksPosition = false
  | _ => True

instance (builder : Builder) (step : BuildStep) : Decidable (builder.LeavesMarks step) :=
  match step with
  | .emit .program code value =>
    inferInstanceAs (Decidable ((Cell.mk code value).marksPosition = false))
  | .patch .program address _ =>
    inferInstanceAs (Decidable (∀ cell ∈ builder.image.program[address.toNat]?,
      cell.marksPosition = false))
  | .emit .init _ _ | .patch .init _ _ | .number _ | .text _ | .literal _ | .storage _ _ _
  | .slot _ | .position _ _ | .function _ => inferInstanceAs (Decidable True)

/-- Whether no step that succeeds makes or changes marks, positions apart. -/
def OnlyPositionsMark (builder : Builder) : List BuildStep → Prop
  | [] => True
  | step :: rest =>
    ((builder.perform step).1.isOk = true → builder.LeavesMarks step) ∧
      OnlyPositionsMark (builder.perform step).2 rest

instance OnlyPositionsMark.decidable : (builder : Builder) → (steps : List BuildStep) →
    Decidable (builder.OnlyPositionsMark steps)
  | _, [] => inferInstanceAs (Decidable True)
  | builder, step :: rest =>
    have := decidable (builder.perform step).2 rest
    inferInstanceAs (Decidable (_ ∧ _))

/-- Whether a position is refused at some step. -/
def Refuses (builder : Builder) (file : Bytes) (line : Int) : List BuildStep → Prop
  | [] => False
  | step :: rest =>
    (step = .position file line ∧ (builder.perform step).1.isOk = false) ∨
      Refuses (builder.perform step).2 file line rest

/-- Two builders at the same position. -/
structure SamePlace (builder next : Builder) : Prop where
  place : next.image.place = builder.image.place
  file : next.file = builder.file
  line : next.line = builder.line

section Steps

variable {builder next : Builder} {step : BuildStep}

/-- Entering an operand makes no marks. -/
theorem SamePlace.enter (builder : Builder) (operand : Operand) :
    SamePlace builder (builder.enter operand) := by
  obtain ⟨hfile, hline⟩ := position_enter builder operand
  refine ⟨?_, hfile, hline⟩
  rw [image_enter]
  rfl

theorem SamePlace.setCode {codeSection : Section} {cells : List Cell}
    (h : codeSection = .program → cells.foldl Place.pass {} = builder.image.place) :
    SamePlace builder (builder.setCode codeSection cells) := by
  cases codeSection with
  | init => exact ⟨rfl, rfl, rfl⟩
  | program => exact ⟨h rfl, rfl, rfl⟩

theorem SamePlace.of_emit {codeSection : Section} {code : UInt8} {value : UInt32}
    (hemit : builder.run (emit codeSection code value) = (.ok (), next))
    (hleaves : builder.LeavesMarks (.emit codeSection code value)) : SamePlace builder next := by
  obtain ⟨-, rfl⟩ := emit_eq_ok hemit
  refine .setCode ?_
  rintro rfl
  rw [List.foldl_append]
  exact Place.pass_of_not_marksPosition hleaves _

/-- A cell that is patched keeps its meaning. -/
theorem SamePlace.of_patch {codeSection : Section} {address value : UInt32}
    (hpatch : builder.run (patch codeSection address value) = (.ok (), next))
    (hleaves : builder.LeavesMarks (.patch codeSection address value)) :
    SamePlace builder next := by
  obtain ⟨old, hold, -, rfl⟩ := patch_eq_ok hpatch
  refine .setCode ?_
  rintro rfl
  have hplain : old.marksPosition = false := hleaves old hold
  have hnew : (Cell.mk old.code value).marksPosition = false := hplain
  exact Place.foldl_pass_set hold hplain hnew _

theorem Effect.samePlace {given : Option Cell} {grant : Option Grant}
    (heffect : Effect builder step given grant next)
    (hposition : ∀ file line, step ≠ .position file line)
    (hleaves : (builder.perform step).1.isOk = true → builder.LeavesMarks step) :
    SamePlace builder next := by
  cases heffect with
  | fail => exact ⟨rfl, rfl, rfl⟩
  | enter hoperand henters =>
    obtain rfl := henters.next_eq
    exact .enter builder _
  | emit hemit => exact .of_emit hemit (hleaves (isOk_perform rfl hemit))
  | patch hpatch => exact .of_patch hpatch (hleaves (isOk_perform rfl hpatch))
  | function hfunction =>
    obtain ⟨functions, -, rfl⟩ := function_eq_ok hfunction
    exact ⟨rfl, rfl, rfl⟩
  | mark hmarks => exact absurd rfl (hposition _ _)
  | nameFile henters hmarks => exact absurd rfl (hposition _ _)

theorem getElem?_texts_perform (hsound : builder.Sound) {index : Nat} {text : Bytes}
    (h : builder.image.texts[index]? = some text) :
    (builder.perform step).2.image.texts[index]? = some text :=
  perform_of_enter (fun pools ↦ pools.Holds index (.text text)) hsound
    (fun _ hroom ↦ Pools.Holds.enter h hroom) h step

end Steps

/-! ### What a builder remembers -/

/-- The last position of a builder is what the marks tell, except for a line that was refused. -/
structure Tracks (builder : Builder) (refused : Bytes → Int → Prop) : Prop where
  file : builder.image.markedFile? = some builder.file
  nonneg : 0 ≤ builder.line
  line : builder.image.place.line = UInt32.ofNat builder.line.toNat ∨
    refused builder.file builder.line

namespace Tracks

variable {builder next : Builder} {refused : Bytes → Int → Prop} {file : Bytes} {line : Int}
  {result : Except BuildError Unit}

theorem empty : Tracks {} fun _ _ ↦ False :=
  ⟨rfl, Int.le_refl 0, .inl rfl⟩

theorem withTextLimits (h : builder.Tracks refused) (limits : List Int) :
    (limits.foldl withTextLimit builder).Tracks refused := by
  induction limits generalizing builder with
  | nil => exact h
  | cons limit limits ih =>
    refine ih ?_
    unfold withTextLimit
    split_ifs
    · exact ⟨h.file, h.nonneg, h.line⟩
    · exact h

theorem mono {more : Bytes → Int → Prop} (h : builder.Tracks refused)
    (hmore : ∀ file line, refused file line → more file line) : builder.Tracks more :=
  ⟨h.file, h.nonneg, h.line.imp_right (hmore _ _)⟩

/-- At the same position, texts may be added. -/
theorem samePlace (h : builder.Tracks refused) (hsame : SamePlace builder next)
    (htexts : ∀ (index : Nat) (text : Bytes), builder.image.texts[index]? = some text →
      next.image.texts[index]? = some text) : next.Tracks refused := by
  have hfile : next.image.markedFile? = some builder.file := by
    have hmarked := h.file
    unfold Image.markedFile? at hmarked ⊢
    rw [hsame.place]
    split at hmarked
    · exact hmarked
    · exact htexts _ _ hmarked
  refine ⟨hsame.file ▸ hfile, hsame.line ▸ h.nonneg, ?_⟩
  rw [hsame.place, hsame.file, hsame.line]
  exact h.line

theorem enterText (h : builder.Tracks refused) (file : Bytes) :
    (builder.enter (.text file)).Tracks refused := by
  refine h.samePlace (.enter builder _) fun index text htext ↦ ?_
  rw [image_enter]
  exact getElem?_addNew htext

theorem place_withFileMark (builder : Builder) (file : Bytes) :
    (builder.withFileMark file).image.place = { file? := some (builder.fileMark file).value } := by
  change (builder.image.program ++ [builder.fileMark file]).foldl Place.pass {} = _
  rw [List.foldl_append]
  rfl

theorem withFileMark (hindex : builder.image.texts.idxOf file ≤ maxValue) :
    (builder.withFileMark file).Tracks refused := by
  have hplace := place_withFileMark builder file
  have hvalue : (builder.fileMark file).value.toNat = builder.image.texts.idxOf file := by
    refine UInt32.toNat_ofNat_of_lt ?_
    unfold maxValue at hindex
    change _ < 4294967296
    omega
  refine ⟨?_, Int.le_refl 0, .inl (by rw [hplace]; rfl)⟩
  rw [Image.markedFile?, hplace]
  change (builder.enter (.text file)).image.texts[(builder.fileMark file).value.toNat]? = some file
  rw [image_enter, hvalue]
  exact getElem?_idxOf_addNew _ _

theorem marksFile (h : builder.Tracks refused) (hmarks : MarksFile builder file result next) :
    next.Tracks refused ∧ (result = .ok () → next.file = file) := by
  cases hmarks with
  | same hfile => exact ⟨h, fun _ ↦ hfile.symm⟩
  | notText hfile htext => exact ⟨h, nofun⟩
  | full hfile hfull => exact ⟨h.enterText file, nofun⟩
  | marked hfile hindex => exact ⟨.withFileMark hindex, fun _ ↦ rfl⟩

theorem place_lineMark (builder : Builder) (line : Int) :
    ({ builder with
        image.program := builder.image.program ++ [lineMark line], line } : Builder).image.place =
      { builder.image.place with line := (lineMark line).value } := by
  change (builder.image.program ++ [lineMark line]).foldl Place.pass {} = _
  rw [List.foldl_append]
  rfl

/-- A line that is refused counts as marked from then on. -/
theorem marksLine (h : builder.Tracks refused) (hmarks : MarksLine builder line result next) :
    next.Tracks (fun file last ↦
        refused file last ∨ (file = builder.file ∧ last = line ∧ result.isOk = false)) ∧
      (result = .ok () → next.file = builder.file ∧ next.line = line) := by
  cases hmarks with
  | same hline => exact ⟨h.mono fun _ _ ↦ .inl, fun _ ↦ ⟨rfl, hline.symm⟩⟩
  | negative hline hneg => exact ⟨h.mono fun _ _ ↦ .inl, nofun⟩
  | refused hline hnonneg =>
    exact ⟨⟨h.file, hnonneg, .inr (.inr ⟨rfl, rfl, rfl⟩)⟩, nofun⟩
  | marked hline hnonneg hfits =>
    have hplace := place_lineMark builder line
    refine ⟨⟨?_, hnonneg, .inl (by rw [hplace]; rfl)⟩, fun _ ↦ ⟨rfl, rfl⟩⟩
    rw [Image.markedFile?, hplace]
    exact h.file

theorem marksPosition (h : builder.Tracks refused)
    (hmarks : MarksPosition builder file line result next) :
    next.Tracks (fun other last ↦
        refused other last ∨ (other = file ∧ last = line ∧ result.isOk = false)) ∧
      (result = .ok () → next.file = file ∧ next.line = line) := by
  cases hmarks with
  | file hfile => exact ⟨(h.marksFile hfile).1.mono fun _ _ ↦ .inl, nofun⟩
  | line hfile hline =>
    obtain ⟨hmiddle, hname⟩ := h.marksFile hfile
    rw [← hname rfl]
    exact hmiddle.marksLine hline

theorem perform (h : builder.Tracks refused) (hsound : builder.Sound) {step : BuildStep}
    (hleaves : (builder.perform step).1.isOk = true → builder.LeavesMarks step) :
    (builder.perform step).2.Tracks fun file line ↦
      refused file line ∨ (step = .position file line ∧ (builder.perform step).1.isOk = false) := by
  by_cases hposition : ∃ file line, step = .position file line
  · obtain ⟨file, line, rfl⟩ := hposition
    have hmarks := marksPosition_position hsound file line
    rw [perform_position]
    refine (h.marksPosition hmarks).1.mono fun other last hrefused ↦ hrefused.imp_right ?_
    rintro ⟨rfl, rfl, herror⟩
    refine ⟨rfl, ?_⟩
    rwa [isOk_map]
  · have hother : ∀ file line, step ≠ .position file line :=
      fun file line heq ↦ hposition ⟨file, line, heq⟩
    have hsame := (effect_perform hsound step).samePlace hother hleaves
    exact (h.samePlace hsame fun _ _ ↦ getElem?_texts_perform hsound).mono fun _ _ ↦ .inl

theorem performAll (h : builder.Tracks refused) (hsound : builder.Sound) {steps : List BuildStep}
    (hmark : builder.OnlyPositionsMark steps) :
    (builder.performAll steps).Tracks fun file line ↦
      refused file line ∨ builder.Refuses file line steps := by
  induction steps generalizing builder refused with
  | nil => exact h.mono fun _ _ ↦ .inl
  | cons step rest ih =>
    obtain ⟨hleaves, hrest⟩ := hmark
    refine (ih (h.perform hsound hleaves) (hsound.perform step) hrest).mono fun file line ↦ ?_
    exact or_assoc.mp

end Tracks

theorem position_of_ok {builder : Builder} {file : Bytes} {line : Int}
    (h : (builder.perform (.position file line)).1 = .ok none) :
    (builder.run (position file line)).1 = .ok () := by
  rw [perform_position] at h
  generalize (builder.run (position file line)).1 = result at h ⊢
  cases result with
  | ok value => rfl
  | error error => cases h

/-- After a position that is marked, the file that the marks tell is its file. The line that they
tell is its line cut to 32 bits, unless the same position was refused before. A line of more than 24
bits is not told in either case. -/
theorem marked_of_position (limits : List Int) {steps : List BuildStep} {file : Bytes} {line : Int}
    (hmark : (limits.foldl withTextLimit {}).OnlyPositionsMark steps)
    (hok : (((limits.foldl withTextLimit {}).performAll steps).perform (.position file line)).1 =
      .ok none) :
    let image :=
      (((limits.foldl withTextLimit {}).performAll steps).perform (.position file line)).2.image
    0 ≤ line ∧ image.markedFile? = some file ∧
      (image.markedLine = line % 2 ^ 32 ∨
        (limits.foldl withTextLimit {}).Refuses file line steps) ∧
      (2 ^ 24 ≤ line → image.markedLine ≠ line) := by
  intro image
  have hstart := Sound.empty.withTextLimits limits
  have hsound := hstart.performAll steps
  have htracks := (Tracks.empty.withTextLimits limits).performAll hstart hmark
  have hcells := (hsound.perform (.position file line)).cells .program
  have hmarks := marksPosition_position hsound file line
  have hmarked := position_of_ok hok
  obtain ⟨hnext, hlast⟩ := htracks.marksPosition hmarks
  obtain ⟨hfile, hline⟩ := hlast hmarked
  have himage : (((limits.foldl withTextLimit {}).performAll steps).run
      (position file line)).2.image = image := by
    unfold image
    rw [perform_position]
  have hnonneg : 0 ≤ line := hline ▸ hnext.nonneg
  refine ⟨hnonneg, ?_, ?_, ?_⟩
  · rw [← himage, hnext.file, hfile]
  · have htold := hnext.line
    rw [himage, hfile, hline] at htold
    rcases htold with htold | (hnever | hrefused) | ⟨-, -, herror⟩
    · left
      rw [Image.markedLine, htold, UInt32.toNat_ofNat']
      omega
    · exact hnever.elim
    · exact .inr hrefused
    · rw [hmarked] at herror
      cases herror
  · intro hwide
    have hshort : image.place.line.toNat ≤ maxValue := Place.line_foldl_le hcells (Nat.zero_le _)
    unfold Image.markedLine
    unfold maxValue at hshort
    omega

/-- A run in which a file is marked and its line refused, a line is cut to 32 bits, and a jump
between the marks is patched. -/
def wanderingSteps : List BuildStep :=
  [.position (utf8 "a") 1, .emit .program Tag.goto.code 0, .position (utf8 "b") 0x1000000,
   .patch .program 2 4, .position (utf8 "a") 0x100000005, .emit .init Tag.line.code 9]

theorem marked_after_wanderingSteps :
    (([300, 5].foldl withTextLimit {}).OnlyPositionsMark wanderingSteps) ∧
      ((([300, 5].foldl withTextLimit {}).performAll wanderingSteps).perform
        (.position (utf8 "b") 3)).1 = .ok none ∧
      let image := ((([300, 5].foldl withTextLimit {}).performAll wanderingSteps).perform
        (.position (utf8 "b") 3)).2.image
      0 ≤ (3 : Int) ∧ image.markedFile? = some (utf8 "b") ∧
        (image.markedLine = 3 % 2 ^ 32 ∨
          ([300, 5].foldl withTextLimit {}).Refuses (utf8 "b") 3 wanderingSteps) ∧
        (2 ^ 24 ≤ (3 : Int) → image.markedLine ≠ 3) := by
  have hmark : ([300, 5].foldl withTextLimit {}).OnlyPositionsMark wanderingSteps := by
    decide +kernel
  have hok : ((([300, 5].foldl withTextLimit {}).performAll wanderingSteps).perform
      (.position (utf8 "b") 3)).1 = .ok none := by
    decide +kernel
  exact ⟨hmark, hok, marked_of_position _ hmark hok⟩

/-- A position that was refused is accepted the second time, although no line is marked, and a line
of 33 bits is accepted, although another line is marked. -/
theorem position_marks_other_line :
    (({} : Builder).perform (.position (utf8 "a") 0x1000000)).1 =
        .error (.oversized ⟨Tag.line.code, 0x1000000⟩) ∧
      ((({} : Builder).performAll [.position (utf8 "a") 0x1000000]).perform
        (.position (utf8 "a") 0x1000000)).1 = .ok none ∧
      (({} : Builder).performAll [.position (utf8 "a") 0x1000000,
        .position (utf8 "a") 0x1000000]).image.markedLine = 0 ∧
      (({} : Builder).perform (.position (utf8 "a") 0x100000005)).1 = .ok none ∧
      (({} : Builder).perform (.position (utf8 "a") 0x100000005)).2.image.markedLine = 5 := by
  decide +kernel

end Builder

end LineScript
