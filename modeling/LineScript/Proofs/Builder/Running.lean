import LineScript.Builder
import Mathlib.Tactic.SplitIfs

/-!
Running the calls of a builder. A computation on a builder is run by running its parts one after
another, where the builder goes from part to part and stays as it is from a failure on. For each
call one equation says what it gives and what it leaves. All calls but those for positions are
atomic, since they change the builder only after all that can fail.
-/

set_option autoImplicit false
set_option relaxedAutoImplicit false

namespace LineScript.Builder

section Parts

variable {α β : Type} (builder : Builder)

theorem run_modify (change : Builder → Builder) :
    builder.run (modify change) = (.ok ⟨⟩, change builder) :=
  rfl

theorem run_liftM (result : Except BuildError α) :
    builder.run (liftM result) = (result, builder) :=
  rfl

/-- What follows is run on what the first part leaves, unless that part has failed. -/
theorem run_bind (first : Build α) (rest : α → Build β) :
    builder.run (first >>= rest) =
      match builder.run first with
      | (.ok value, next) => next.run (rest value)
      | (.error error, next) => (.error error, next) := by
  unfold run
  rw [ExceptT.run_bind, StateT.run_bind]
  rcases StateT.run (ExceptT.run first) builder with ⟨_ | _, next⟩ <;> rfl

theorem run_get_bind (rest : Builder → Build α) :
    builder.run (get >>= rest) = builder.run (rest builder) :=
  rfl

theorem run_map (change : α → β) (build : Build α) :
    builder.run (change <$> build) =
      ((builder.run build).1.map change, (builder.run build).2) := by
  rw [map_eq_pure_bind, run_bind]
  rcases builder.run build with ⟨_ | _, next⟩ <;> rfl

/-- What holds between the builders before and after each part of a computation holds between those
before and after the whole. -/
theorem run_bind_trans {relation : Builder → Builder → Prop}
    (htrans : ∀ {builder middle last}, relation builder middle → relation middle last →
      relation builder last)
    {first : Build α} {rest : α → Build β}
    (hfirst : ∀ builder, relation builder (run builder first).2)
    (hrest : ∀ value builder, relation builder (run builder (rest value)).2) :
    relation builder (builder.run (first >>= rest)).2 := by
  have hmiddle := hfirst builder
  rw [run_bind]
  generalize builder.run first = outcome at hmiddle ⊢
  rcases outcome with ⟨error | value, next⟩
  · exact hmiddle
  · exact htrans hmiddle (hrest value next)

end Parts

/-! ### Calls -/

theorem cellOf_eq_ok {code : UInt8} {value : UInt32} {cell : Cell}
    (h : cellOf code value = .ok cell) : cell = ⟨code, value⟩ ∧ cell.fits = true := by
  unfold cellOf at h
  dsimp only at h
  split_ifs at h with hfits
  cases h
  exact ⟨rfl, hfits⟩

/-- A table that gives out a reference has room for an entry. -/
theorem nextRef_eq_ok {tag : Tag} {count : Nat} {ref : Cell} (h : nextRef tag count = .ok ref) :
    ref = .of tag (UInt32.ofNat count) ∧ (UInt32.ofNat count).toNat ≤ maxValue := by
  obtain ⟨rfl, hfits⟩ := cellOf_eq_ok h
  exact ⟨rfl, of_decide_eq_true hfits⟩

section Calls

variable (builder : Builder)

theorem run_number (value : Number) :
    builder.run (number value) =
      match builder.numberPlaces.lookup value.bits with
      | some place => (.ok (.of (.constant .numeric) place), builder)
      | none =>
        match nextRef (.constant .numeric) builder.image.numbers.length with
        | .ok ref => (.ok ref, builder.addNumber value ref.value)
        | .error error => (.error error, builder) := by
  rw [number, run_get_bind]
  cases builder.numberPlaces.lookup value.bits with
  | some place => rfl
  | none =>
    rw [run_get_bind, run_bind, run_liftM]
    cases nextRef (.constant .numeric) builder.image.numbers.length <;> rfl

theorem run_text (value : Bytes) :
    builder.run (text value) =
      match builder.textPlaces.lookup value with
      | some place => (.ok (.of (.constant .text) place), builder)
      | none =>
        if builder.textLimit < value.length then (.error (.textTooLong value), builder)
        else if value.contains 0 then (.error .textWithZero, builder)
        else
          match nextRef (.constant .text) builder.image.texts.length with
          | .ok ref => (.ok ref, builder.addText value ref.value)
          | .error error => (.error error, builder) := by
  rw [text, run_get_bind]
  cases builder.textPlaces.lookup value with
  | some place => rfl
  | none =>
    rw [run_get_bind]
    split_ifs
    · rfl
    · rfl
    · rw [run_get_bind, run_bind, run_liftM]
      cases nextRef (.constant .text) builder.image.texts.length <;> rfl

theorem run_storage (name : Bytes) (arity : Arity) (type : ValueType) :
    builder.run (storage name arity type) =
      if !Text.isName name then (.error (.invalidName name), builder)
      else
        match builder.storageRefs.lookup name with
        | some _ => (.error (.storageDefined name), builder)
        | none =>
          match nextRef (.storage arity type) builder.image.storage.length with
          | .ok ref => (.ok ref, builder.addStorage name ref)
          | .error error => (.error error, builder) := by
  unfold storage
  split_ifs
  · rfl
  · rw [run_get_bind]
    cases builder.storageRefs.lookup name with
    | some ref => rfl
    | none =>
      rw [run_get_bind, run_bind, run_liftM]
      cases nextRef (.storage arity type) builder.image.storage.length <;> rfl

theorem run_slot (code : UInt8) :
    builder.run (slot code) =
      match Tag.ofCode? code with
      | some (.ram ramClass) =>
        match cellOf code (builder.image.ram.size ramClass) with
        | .ok ref => (.ok ref, { builder with image.ram := builder.image.ram.grow ramClass })
        | .error error => (.error error, builder)
      | _ => (.error (.notMemory code), builder) := by
  unfold slot
  rcases Tag.ofCode? code with _ | tag
  · rfl
  · cases tag with
    | ram ramClass =>
      dsimp only
      rw [run_get_bind, run_bind, run_liftM]
      cases cellOf code (builder.image.ram.size ramClass) <;> rfl
    | _ => rfl

theorem run_emit (codeSection : Section) (code : UInt8) (value : UInt32) :
    builder.run (emit codeSection code value) =
      match cellOf code value with
      | .error error => (.error error, builder)
      | .ok cell =>
        if maxValue < (builder.image.code codeSection).length then
          (.error (.sectionFull codeSection), builder)
        else
          (.ok (), builder.setCode codeSection (builder.image.code codeSection ++ [cell])) := by
  rw [emit, run_bind, run_liftM]
  cases cellOf code value with
  | error error => rfl
  | ok cell =>
    dsimp only
    rw [run_get_bind]
    split_ifs <;> rfl

theorem run_patch (codeSection : Section) (address value : UInt32) :
    builder.run (patch codeSection address value) =
      match (builder.image.code codeSection)[address.toNat]? with
      | none => (.error (.patchOutside codeSection address), builder)
      | some old =>
        match cellOf old.code value with
        | .error error => (.error error, builder)
        | .ok cell =>
          (.ok (), builder.setCode codeSection
            ((builder.image.code codeSection).set address.toNat cell)) := by
  rw [patch, run_get_bind]
  dsimp only
  cases (builder.image.code codeSection)[address.toNat]? with
  | none => rfl
  | some old =>
    dsimp only
    rw [run_bind, run_liftM]
    cases cellOf old.code value <;> rfl

theorem run_function (name : Bytes) :
    builder.run (function name) =
      if !Text.isName name then (.error (.invalidName name), builder)
      else
        match builder.image.functions.declare? name (UInt32.ofNat (builder.here .program)) with
        | some functions => (.ok (), { builder with image.functions := functions })
        | none => (.error (.functionDefined name), builder) := by
  unfold function
  split_ifs
  · rfl
  · rw [run_get_bind]
    cases builder.image.functions.declare? name (UInt32.ofNat (builder.here .program)) <;> rfl

theorem run_markFile (file : Bytes) :
    builder.run (markFile file) =
      if file = builder.file then (.ok (), builder)
      else
        match builder.run (text file) with
        | (.error error, next) => (.error error, next)
        | (.ok ref, named) =>
          match named.run (emit .program Tag.file.code ref.value) with
          | (.error error, next) => (.error error, next)
          | (.ok _, marked) => (.ok (), { marked with file, line := 0 }) := by
  rw [markFile, run_get_bind]
  split_ifs
  · rfl
  · rw [run_bind]
    rcases builder.run (text file) with ⟨_ | ref, named⟩
    · rfl
    · dsimp only
      rw [run_bind]
      rcases named.run (emit .program Tag.file.code ref.value) with ⟨_ | _, marked⟩ <;> rfl

theorem run_markLine (line : Int) :
    builder.run (markLine line) =
      if line = builder.line then (.ok (), builder)
      else if line < 0 then (.error (.negativeLine line), builder)
      else run { builder with line }
        (emit .program Tag.line.code (UInt32.ofNat line.toNat)) := by
  rw [markLine, run_get_bind]
  split_ifs
  · rfl
  · rfl
  · rw [run_bind, run_modify]

end Calls

/-! ### Atomic calls -/

/-- Whether a computation leaves the builder as it was whenever it fails. -/
def IsAtomic {α : Type} (build : Build α) : Prop :=
  ∀ builder error next, Builder.run builder build = (.error error, next) → next = builder

section Atomic

variable {α β : Type}

theorem isAtomic_pure (value : α) : IsAtomic (pure value) := by
  intro builder error next h
  cases h

theorem isAtomic_throw (error : BuildError) : IsAtomic (throw error : Build α) := by
  intro builder found next h
  cases h
  rfl

/-- Looking at the builder changes nothing. -/
theorem isAtomic_get_bind {rest : Builder → Build α} (h : ∀ builder, IsAtomic (rest builder)) :
    IsAtomic (get >>= rest) := by
  intro builder error next hrun
  rw [run_get_bind] at hrun
  exact h builder builder error next hrun

/-- Neither does a computation without the builder. -/
theorem isAtomic_liftM_bind (result : Except BuildError α) {rest : α → Build β}
    (h : ∀ value, IsAtomic (rest value)) : IsAtomic (liftM result >>= rest) := by
  intro builder error next hrun
  rw [run_bind, run_liftM] at hrun
  cases result with
  | ok value => exact h value builder error next hrun
  | error found =>
    cases hrun
    rfl

/-- A change does not fail. -/
theorem isAtomic_modify (change : Builder → Builder) : IsAtomic (modify change) := by
  intro builder error next h
  cases h

theorem isAtomic_modify_pure (change : Builder → Builder) (value : α) :
    IsAtomic (do modify change; return value) := by
  intro builder error next h
  cases h

theorem isAtomic_number (value : Number) : IsAtomic (number value) := by
  refine isAtomic_get_bind fun builder ↦ ?_
  cases builder.numberPlaces.lookup value.bits with
  | some place => exact isAtomic_pure _
  | none =>
    refine isAtomic_get_bind fun _ ↦ isAtomic_liftM_bind _ fun ref ↦ ?_
    exact isAtomic_modify_pure _ ref

theorem isAtomic_text (value : Bytes) : IsAtomic (text value) := by
  refine isAtomic_get_bind fun builder ↦ ?_
  cases builder.textPlaces.lookup value with
  | some place => exact isAtomic_pure _
  | none =>
    refine isAtomic_get_bind fun _ ↦ ?_
    split_ifs
    · exact isAtomic_throw _
    · exact isAtomic_throw _
    · refine isAtomic_get_bind fun _ ↦ isAtomic_liftM_bind _ fun ref ↦ ?_
      exact isAtomic_modify_pure _ ref

theorem isAtomic_literal (word : Word) : IsAtomic (literal word) := by
  unfold literal
  split
  · split
    · exact isAtomic_number _
    · exact isAtomic_throw _
  · exact isAtomic_text _
  · exact isAtomic_throw _

theorem isAtomic_storage (name : Bytes) (arity : Arity) (type : ValueType) :
    IsAtomic (storage name arity type) := by
  unfold storage
  split_ifs
  · exact isAtomic_throw _
  · refine isAtomic_get_bind fun builder ↦ ?_
    cases builder.storageRefs.lookup name with
    | some ref => exact isAtomic_throw _
    | none =>
      refine isAtomic_get_bind fun _ ↦ isAtomic_liftM_bind _ fun ref ↦ ?_
      exact isAtomic_modify_pure _ ref

theorem isAtomic_slot (code : UInt8) : IsAtomic (slot code) := by
  unfold slot
  split
  · refine isAtomic_get_bind fun _ ↦ isAtomic_liftM_bind _ fun ref ↦ ?_
    exact isAtomic_modify_pure _ ref
  · exact isAtomic_throw _

theorem isAtomic_emit (codeSection : Section) (code : UInt8) (value : UInt32) :
    IsAtomic (emit codeSection code value) := by
  refine isAtomic_liftM_bind _ fun cell ↦ isAtomic_get_bind fun builder ↦ ?_
  dsimp only
  split_ifs
  · exact isAtomic_throw _
  · exact isAtomic_modify _

theorem isAtomic_patch (codeSection : Section) (address value : UInt32) :
    IsAtomic (patch codeSection address value) := by
  refine isAtomic_get_bind fun builder ↦ ?_
  dsimp only
  cases (builder.image.code codeSection)[address.toNat]? with
  | none => exact isAtomic_throw _
  | some old => exact isAtomic_liftM_bind _ fun cell ↦ isAtomic_modify _

theorem isAtomic_function (name : Bytes) : IsAtomic (function name) := by
  unfold function
  split_ifs
  · exact isAtomic_throw _
  · refine isAtomic_get_bind fun builder ↦ ?_
    split
    · exact isAtomic_modify _
    · exact isAtomic_throw _

end Atomic

/-! ### Steps -/

/-- A step gives and leaves what its call does. -/
theorem perform_eq {α : Type} (builder : Builder) {step : BuildStep} {build : Build α}
    {give : α → Option Cell} (h : act step = give <$> build) :
    builder.perform step = ((builder.run build).1.map give, (builder.run build).2) := by
  rw [perform, h, run_map]

theorem isOk_map {α β : Type} (give : α → β) (result : Except BuildError α) :
    (result.map give).isOk = result.isOk := by
  cases result <;> rfl

theorem isOk_perform {α : Type} {builder next : Builder} {step : BuildStep} {build : Build α}
    {give : α → Option Cell} {value : α} (h : act step = give <$> build)
    (hrun : builder.run build = (.ok value, next)) : (builder.perform step).1.isOk = true := by
  rw [perform_eq builder h, isOk_map, hrun]
  rfl

end LineScript.Builder
