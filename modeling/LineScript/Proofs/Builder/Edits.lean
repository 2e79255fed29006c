import LineScript.Proofs.Builder.Running
import LineScript.Proofs.Image.Readers
import LineScript.Proofs.Image.Writable
import Mathlib.Logic.Relation

/-!
What the steps of building do to a builder. Each step is a row of single changes, which say under
what conditions a table and its map grow or a cell is set; a step that fails has made some of its
changes or none. So whatever every single change keeps is kept by every step and by every run of
steps.
-/

set_option autoImplicit false
set_option relaxedAutoImplicit false

namespace LineScript.Builder

open Bytes Relation

/-- A single change. A table has room when its next entry gets a reference of 24 bits. -/
inductive Edit (builder : Builder) : Builder → Prop where
  | number {value : Number} (hnew : builder.numberPlaces.lookup value.bits = none)
      (hroom : (UInt32.ofNat builder.image.numbers.length).toNat ≤ maxValue) :
      Edit builder (builder.addNumber value (UInt32.ofNat builder.image.numbers.length))
  | text {value : Bytes} (hnew : builder.textPlaces.lookup value = none)
      (hlength : value.length ≤ builder.textLimit) (hzero : 0 ∉ value)
      (hroom : (UInt32.ofNat builder.image.texts.length).toNat ≤ maxValue) :
      Edit builder (builder.addText value (UInt32.ofNat builder.image.texts.length))
  | storage {name : Bytes} {arity : Arity} {type : ValueType} (hname : Text.isName name = true)
      (hnew : builder.storageRefs.lookup name = none)
      (hroom : (UInt32.ofNat builder.image.storage.length).toNat ≤ maxValue) :
      Edit builder (builder.addStorage name
        (.of (.storage arity type) (UInt32.ofNat builder.image.storage.length)))
  | slot {ramClass : RamClass} (hroom : (builder.image.ram.size ramClass).toNat ≤ maxValue) :
      Edit builder { builder with image.ram := builder.image.ram.grow ramClass }
  | append {codeSection : Section} {cell : Cell} (hfits : cell.fits = true)
      (hroom : (builder.image.code codeSection).length ≤ maxValue) :
      Edit builder (builder.setCode codeSection (builder.image.code codeSection ++ [cell]))
  | patch {codeSection : Section} {address : Nat} {cell : Cell} (hfits : cell.fits = true) :
      Edit builder
        (builder.setCode codeSection ((builder.image.code codeSection).set address cell))
  | function {name : Bytes} {address : UInt32} {functions : FunctionTable}
      (hname : Text.isName name = true)
      (hnew : builder.image.functions.declare? name address = some functions) :
      Edit builder { builder with image.functions := functions }
  | mark (file : Bytes) (line : Int) : Edit builder { builder with file, line }

/-- Any number of single changes. -/
abbrev Edits : Builder → Builder → Prop := ReflTransGen Edit

/-- Changes are made one part of a computation after another. -/
theorem edits_bind {α β : Type} {first : Build α} {rest : α → Build β}
    (hfirst : ∀ builder : Builder, Edits builder (builder.run first).2)
    (hrest : ∀ value, ∀ builder : Builder, Edits builder (builder.run (rest value)).2)
    (builder : Builder) : Edits builder (builder.run (first >>= rest)).2 :=
  run_bind_trans builder ReflTransGen.trans hfirst hrest

/-! ### Calls that hand out references -/

theorem edits_number (value : Number) (builder : Builder) :
    Edits builder (builder.run (number value)).2 := by
  rw [run_number]
  split
  · exact .refl
  · rename_i hnew
    split
    · rename_i ref href
      obtain ⟨rfl, hroom⟩ := nextRef_eq_ok href
      exact .single (.number hnew hroom)
    · exact .refl

theorem edits_text (value : Bytes) (builder : Builder) :
    Edits builder (builder.run (text value)).2 := by
  rw [run_text]
  split
  · exact .refl
  · rename_i hnew
    split_ifs with hlong hzero
    · exact .refl
    · exact .refl
    · rw [List.contains_iff_mem] at hzero
      split
      · rename_i ref href
        obtain ⟨rfl, hroom⟩ := nextRef_eq_ok href
        exact .single (.text hnew (Nat.not_lt.mp hlong) hzero hroom)
      · exact .refl

theorem edits_literal (word : Word) (builder : Builder) :
    Edits builder (builder.run (literal word)).2 := by
  unfold literal
  split
  · split
    · exact edits_number _ builder
    · exact .refl
  · exact edits_text _ builder
  · exact .refl

theorem edits_storage (name : Bytes) (arity : Arity) (type : ValueType) (builder : Builder) :
    Edits builder (builder.run (storage name arity type)).2 := by
  rw [run_storage]
  split_ifs with hname
  · exact .refl
  · split
    · exact .refl
    · rename_i hnew
      split
      · rename_i ref href
        obtain ⟨rfl, hroom⟩ := nextRef_eq_ok href
        exact .single (.storage (by simpa using hname) hnew hroom)
      · exact .refl

theorem edits_slot (code : UInt8) (builder : Builder) :
    Edits builder (builder.run (slot code)).2 := by
  rw [run_slot]
  split
  · split
    · rename_i ref href
      obtain ⟨rfl, hfits⟩ := cellOf_eq_ok href
      exact .single (.slot (of_decide_eq_true hfits))
    · exact .refl
  · exact .refl

/-! ### Calls that only change the builder -/

theorem edits_emit (codeSection : Section) (code : UInt8) (value : UInt32) (builder : Builder) :
    Edits builder (builder.run (emit codeSection code value)).2 := by
  rw [run_emit]
  split
  · exact .refl
  · rename_i cell hcell
    split_ifs with hfull
    · exact .refl
    · exact .single (.append (cellOf_eq_ok hcell).2 (Nat.not_lt.mp hfull))

theorem edits_patch (codeSection : Section) (address value : UInt32) (builder : Builder) :
    Edits builder (builder.run (patch codeSection address value)).2 := by
  rw [run_patch]
  split
  · exact .refl
  · split
    · exact .refl
    · rename_i cell hcell
      exact .single (.patch (cellOf_eq_ok hcell).2)

theorem edits_function (name : Bytes) (builder : Builder) :
    Edits builder (builder.run (function name)).2 := by
  rw [run_function]
  split_ifs with hname
  · exact .refl
  · split
    · rename_i functions hfunctions
      exact .single (.function (by simpa using hname) hfunctions)
    · exact .refl

/-- The file may have become a constant although its cell could not be appended. -/
theorem edits_markFile (file : Bytes) (builder : Builder) :
    Edits builder (builder.run (markFile file)).2 := by
  refine edits_bind (fun _ ↦ .refl) (fun current ↦ ?_) builder
  split_ifs
  · exact fun _ ↦ .refl
  · refine edits_bind (edits_text file) fun ref ↦ edits_bind (edits_emit _ _ _) fun _ marked ↦ ?_
    exact .single (.mark file 0)

theorem edits_markLine (line : Int) (builder : Builder) :
    Edits builder (builder.run (markLine line)).2 := by
  refine edits_bind (fun _ ↦ .refl) (fun current ↦ ?_) builder
  split_ifs
  · exact fun _ ↦ .refl
  · exact fun _ ↦ .refl
  · refine edits_bind (fun marked ↦ ?_) fun _ ↦ edits_emit _ _ _
    exact .single (.mark marked.file line)

theorem edits_position (file : Bytes) (line : Int) (builder : Builder) :
    Edits builder (builder.run (position file line)).2 :=
  edits_bind (edits_markFile file) (fun _ ↦ edits_markLine line) builder

/-! ### Steps and runs -/

theorem edits_of_act {α : Type} {build : Build α} {give : α → Option Cell} {builder : Builder}
    {step : BuildStep} (hact : act step = give <$> build)
    (h : Edits builder (builder.run build).2) : Edits builder (builder.perform step).2 := by
  rw [perform_eq builder hact]
  exact h

theorem edits_perform (builder : Builder) (step : BuildStep) :
    Edits builder (builder.perform step).2 := by
  cases step with
  | number value => exact edits_of_act rfl (edits_number value builder)
  | text value => exact edits_of_act rfl (edits_text value builder)
  | literal word => exact edits_of_act rfl (edits_literal word builder)
  | storage name arity type => exact edits_of_act rfl (edits_storage name arity type builder)
  | slot code => exact edits_of_act rfl (edits_slot code builder)
  | emit codeSection code value =>
    exact edits_of_act rfl (edits_emit codeSection code value builder)
  | patch codeSection address value =>
    exact edits_of_act rfl (edits_patch codeSection address value builder)
  | position file line => exact edits_of_act rfl (edits_position file line builder)
  | function name => exact edits_of_act rfl (edits_function name builder)

theorem edits_performAll (builder : Builder) (steps : List BuildStep) :
    Edits builder (builder.performAll steps) := by
  induction steps generalizing builder with
  | nil => exact .refl
  | cons step steps ih => exact (edits_perform builder step).trans (ih _)

/-- What every single change keeps, every run keeps. -/
theorem performAll_induction {property : Builder → Prop}
    (hedit : ∀ {builder next : Builder}, Edit builder next → property builder → property next)
    (builder : Builder) (h : property builder) (steps : List BuildStep) :
    property (builder.performAll steps) := by
  have hedits := edits_performAll builder steps
  generalize builder.performAll steps = last at hedits ⊢
  induction hedits with
  | refl => exact h
  | tail _ hlast ih => exact hedit hlast ih

end LineScript.Builder
