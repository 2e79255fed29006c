import LineScript.Proofs.Builder.Tables

/-!
Steps that fail. A position is marked in two parts, its file and its line, and each part says what
it gives and what the builder is after it. A step that fails changes nothing, neither of the image
nor of the maps, unless it is a position: that may have entered the text of its file, and may have
marked the file, before it fails. It never marks a line.
-/

set_option autoImplicit false
set_option relaxedAutoImplicit false

namespace LineScript.Builder

open Bytes

/-! ### Files -/

/-- The cell that marks a file, whose text is entered unless it is there. -/
def fileMark (builder : Builder) (file : Bytes) : Cell :=
  ⟨Tag.file.code, UInt32.ofNat (builder.image.texts.idxOf file)⟩

/-- The builder with a file marked. The line is then unknown. -/
def withFileMark (builder : Builder) (file : Bytes) : Builder :=
  { builder.enter (.text file) with
    image.program := builder.image.program ++ [builder.fileMark file], file, line := 0 }

/-- What marking a file gives and leaves. -/
inductive MarksFile (builder : Builder) (file : Bytes) :
    Except BuildError Unit → Builder → Prop where
  | same (hfile : file = builder.file) : MarksFile builder file (.ok ()) builder
  | notText {error : BuildError} (hfile : file ≠ builder.file)
      (htext : (builder.run (text file)).1 = .error error) :
      MarksFile builder file (.error error) builder
  | full (hfile : file ≠ builder.file) (hfull : maxValue < builder.image.program.length) :
      MarksFile builder file (.error (.sectionFull .program)) (builder.enter (.text file))
  | marked (hfile : file ≠ builder.file) (hindex : builder.image.texts.idxOf file ≤ maxValue) :
      MarksFile builder file (.ok ()) (builder.withFileMark file)

section Marking

variable {builder next : Builder}

theorem code_enter (builder : Builder) (operand : Operand) (codeSection : Section) :
    (builder.enter operand).image.code codeSection = builder.image.code codeSection := by
  rw [image_enter]
  cases codeSection <;> rfl

/-- A cell that fits is refused only by a section that is full. -/
theorem emit_eq_error {codeSection : Section} {code : UInt8} {value : UInt32} {error : BuildError}
    (hfits : (Cell.mk code value).fits = true)
    (h : builder.run (emit codeSection code value) = (.error error, next)) :
    error = .sectionFull codeSection ∧ maxValue < (builder.image.code codeSection).length ∧
      next = builder := by
  have hcell : cellOf code value = .ok ⟨code, value⟩ := if_pos hfits
  rw [run_emit, hcell] at h
  dsimp only at h
  split_ifs at h with hfull
  · cases h
    exact ⟨rfl, hfull, rfl⟩
  · cases h

theorem marksFile_markFile (hsound : builder.Sound) (file : Bytes) :
    MarksFile builder file (builder.run (markFile file)).1 (builder.run (markFile file)).2 := by
  rw [run_markFile]
  by_cases hfile : file = builder.file
  · rw [if_pos hfile]
    exact .same hfile
  · rw [if_neg hfile]
    rcases htext : builder.run (text file) with ⟨error | ref, named⟩
    · obtain rfl := isAtomic_text file builder error named htext
      exact .notText hfile (by rw [htext])
    · have henters := enters_of_text hsound htext
      have hvalue : ref.value = UInt32.ofNat (builder.image.texts.idxOf file) := by
        rw [← UInt32.ofNat_toNat (x := ref.value), henters.value]
        rfl
      have hfits : (Cell.mk Tag.file.code ref.value).fits = true :=
        decide_eq_true (henters.value.trans_le henters.room)
      obtain rfl := henters.next_eq
      have hprogram := code_enter builder (.text file) .program
      dsimp only
      rcases hemit : (builder.enter (.text file)).run (emit .program Tag.file.code ref.value)
        with ⟨error | ⟨⟩, marked⟩
      · obtain ⟨rfl, hfull, rfl⟩ := emit_eq_error hfits hemit
        rw [hprogram] at hfull
        exact .full hfile hfull
      · obtain ⟨-, rfl⟩ := emit_eq_ok hemit
        rw [hvalue, hprogram]
        exact .marked hfile henters.room

/-! ### Lines -/

/-- The cell that marks a line. The line is cut to 32 bits. -/
def lineMark (line : Int) : Cell :=
  ⟨Tag.line.code, UInt32.ofNat line.toNat⟩

/-- What marking a line gives and leaves. A line that is refused counts as marked. -/
inductive MarksLine (builder : Builder) (line : Int) : Except BuildError Unit → Builder → Prop where
  | same (hline : line = builder.line) : MarksLine builder line (.ok ()) builder
  | negative (hline : line ≠ builder.line) (hneg : line < 0) :
      MarksLine builder line (.error (.negativeLine line)) builder
  | refused {error : BuildError} (hline : line ≠ builder.line) (hnonneg : 0 ≤ line) :
      MarksLine builder line (.error error) { builder with line }
  | marked (hline : line ≠ builder.line) (hnonneg : 0 ≤ line)
      (hfits : (lineMark line).fits = true) :
      MarksLine builder line (.ok ())
        { builder with image.program := builder.image.program ++ [lineMark line], line }

theorem marksLine_markLine (builder : Builder) (line : Int) :
    MarksLine builder line (builder.run (markLine line)).1 (builder.run (markLine line)).2 := by
  rw [run_markLine]
  split_ifs with hline hneg
  · exact .same hline
  · exact .negative hline hneg
  · have hnonneg := Int.not_lt.mp hneg
    rcases hemit : run { builder with line } (emit .program Tag.line.code (UInt32.ofNat line.toNat))
      with ⟨error | ⟨⟩, marked⟩
    · rw [isAtomic_emit _ _ _ _ error marked hemit]
      exact .refused hline hnonneg
    · obtain ⟨hfits, rfl⟩ := emit_eq_ok hemit
      exact .marked hline hnonneg hfits

/-! ### Positions -/

/-- What marking a position gives and leaves: its file is marked, and then its line. -/
inductive MarksPosition (builder : Builder) (file : Bytes) (line : Int) :
    Except BuildError Unit → Builder → Prop where
  | file {error : BuildError} {next : Builder}
      (hfile : MarksFile builder file (.error error) next) :
      MarksPosition builder file line (.error error) next
  | line {middle next : Builder} {result : Except BuildError Unit}
      (hfile : MarksFile builder file (.ok ()) middle) (hline : MarksLine middle line result next) :
      MarksPosition builder file line result next

theorem marksPosition_position (hsound : builder.Sound) (file : Bytes) (line : Int) :
    MarksPosition builder file line (builder.run (position file line)).1
      (builder.run (position file line)).2 := by
  have hfile := marksFile_markFile hsound file
  rw [position, run_bind]
  generalize builder.run (markFile file) = outcome at hfile ⊢
  rcases outcome with ⟨error | ⟨⟩, middle⟩
  · exact .file hfile
  · exact .line hfile (marksLine_markLine middle line)

end Marking

/-! ### Steps that fail -/

/-- What a step that fails can leave. It leaves the builder as it was, unless it is a position. Of a
position whose file is not the last one, the text of the file may be left if the program section is
full, or else the text and the mark of the file. A line that is not negative may be left as the last
one, although nothing marks it. -/
inductive Leftover (builder : Builder) : BuildStep → Builder → Prop where
  | nothing {step : BuildStep} : Leftover builder step builder
  | text {file : Bytes} {line : Int} (hfile : file ≠ builder.file)
      (hfull : maxValue < builder.image.program.length) :
      Leftover builder (.position file line) (builder.enter (.text file))
  | file {file : Bytes} {line last : Int} (hfile : file ≠ builder.file)
      (hneg : line < 0 → last = 0) (hnonneg : 0 ≤ line → last = line) :
      Leftover builder (.position file line) { builder.withFileMark file with line := last }
  | line {line : Int} (hnonneg : 0 ≤ line) :
      Leftover builder (.position builder.file line) { builder with line }

section Failures

variable {builder : Builder} {error : BuildError}

/-- An atomic call that fails leaves nothing. -/
theorem leftover_of_act {α : Type} {build : Build α} {give : α → Option Cell} {step : BuildStep}
    (hact : act step = give <$> build) (hatomic : IsAtomic build)
    (h : (builder.perform step).1 = .error error) :
    Leftover builder step (builder.perform step).2 := by
  rw [perform_eq builder hact] at h ⊢
  rcases hrun : builder.run build with ⟨found | value, next⟩
  · rw [hatomic builder found next hrun]
    exact .nothing
  · rw [hrun] at h
    cases h

theorem leftover_of_marksPosition {file : Bytes} {line : Int} {next : Builder}
    (h : MarksPosition builder file line (.error error) next) :
    Leftover builder (.position file line) next := by
  cases h with
  | file hfile =>
    cases hfile with
    | notText hfile htext => exact .nothing
    | full hfile hfull => exact .text hfile hfull
  | line hfile hline =>
    cases hfile with
    | same hfile =>
      subst hfile
      cases hline with
      | negative hline hneg => exact .nothing
      | refused hline hnonneg => exact .line hnonneg
    | marked hfile hindex =>
      cases hline with
      | negative hline hneg =>
        exact .file hfile (fun _ ↦ rfl) fun hnonneg ↦ absurd hneg (Int.not_lt.mpr hnonneg)
      | refused hline hnonneg =>
        exact .file hfile (fun hneg ↦ absurd hneg (Int.not_lt.mpr hnonneg)) fun _ ↦ rfl

end Failures

/-- Whatever has been built, and with whatever limits on texts: a step that fails leaves everything
as it was, unless it is a position, which may leave the text and the mark of its file. -/
theorem leftover_of_error (limits : List Int) (steps : List BuildStep) {step : BuildStep}
    {error : BuildError}
    (h : (((limits.foldl withTextLimit {}).performAll steps).perform step).1 = .error error) :
    Leftover ((limits.foldl withTextLimit {}).performAll steps) step
      (((limits.foldl withTextLimit {}).performAll steps).perform step).2 := by
  have hsound := (Sound.empty.withTextLimits limits).performAll steps
  generalize (limits.foldl withTextLimit {}).performAll steps = builder at h hsound ⊢
  cases step with
  | number value => exact leftover_of_act rfl (isAtomic_number value) h
  | text value => exact leftover_of_act rfl (isAtomic_text value) h
  | literal word => exact leftover_of_act rfl (isAtomic_literal word) h
  | storage name arity type => exact leftover_of_act rfl (isAtomic_storage name arity type) h
  | slot code => exact leftover_of_act rfl (isAtomic_slot code) h
  | emit codeSection code value => exact leftover_of_act rfl (isAtomic_emit _ code value) h
  | patch codeSection address value => exact leftover_of_act rfl (isAtomic_patch _ address value) h
  | position file line =>
    have hposition := marksPosition_position hsound file line
    rw [perform_position] at h ⊢
    generalize builder.run (position file line) = outcome at hposition h ⊢
    rcases outcome with ⟨found | ⟨⟩, next⟩
    · exact leftover_of_marksPosition hposition
    · cases h
  | function name => exact leftover_of_act rfl (isAtomic_function name) h

/-- A line of 25 bits is refused after the text of its file has been added and the file has been
marked. -/
theorem leftover_of_long_line :
    ((([300, 5].foldl withTextLimit {}).performAll mixedSteps).perform
        (.position (utf8 "again") 0x1000000)).1 = .error (.oversized ⟨Tag.line.code, 0x1000000⟩) ∧
      Leftover (([300, 5].foldl withTextLimit {}).performAll mixedSteps)
        (.position (utf8 "again") 0x1000000)
        ((([300, 5].foldl withTextLimit {}).performAll mixedSteps).perform
          (.position (utf8 "again") 0x1000000)).2 := by
  have hfails : ((([300, 5].foldl withTextLimit {}).performAll mixedSteps).perform
      (.position (utf8 "again") 0x1000000)).1 =
        .error (.oversized ⟨Tag.line.code, 0x1000000⟩) := by
    decide +kernel
  exact ⟨hfails, leftover_of_error _ _ hfails⟩

/-- A position that fails can have marked its file. -/
theorem position_negative_line :
    (({} : Builder).perform (.position (utf8 "a") (-1))).1 = .error (.negativeLine (-1)) ∧
      (({} : Builder).perform (.position (utf8 "a") (-1))).2 =
        { image := { program := [⟨Tag.file.code, 0⟩], texts := [utf8 "a"] }
          textPlaces := [(utf8 "a", 0)], file := utf8 "a" } := by
  decide +kernel

end LineScript.Builder
