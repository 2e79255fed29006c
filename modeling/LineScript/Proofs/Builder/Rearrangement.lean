import LineScript.Proofs.Builder.Tables
import Mathlib.Data.Fin.VecNotation
import Mathlib.Logic.Equiv.Basic
import Mathlib.Order.Fin.Basic

/-!
Steps that share no table may change places. Two runs of the same steps, in which steps that share a
table keep their order, give the same results step for step and end with the same builder. The proof
follows a table through both runs: what the table holds before a step depends on the steps before it
that are about this table, and these are the same in both runs.
-/

set_option autoImplicit false
set_option relaxedAutoImplicit false

namespace LineScript

open Bytes

/-- Whether two steps are about a common table. -/
def BuildStep.Shares (first second : BuildStep) : Prop :=
  ∃ table ∈ first.tables, table ∈ second.tables

instance (first second : BuildStep) : Decidable (first.Shares second) :=
  inferInstanceAs (Decidable (∃ table ∈ first.tables, table ∈ second.tables))

/-- Steps in another order, where `place` says where each step has gone. Steps that share a table
keep their order. -/
structure Rearranges (steps others : List BuildStep)
    (place : Fin steps.length ≃ Fin others.length) : Prop where
  same : ∀ index, others[place index] = steps[index]
  ordered : ∀ first second, first < second → steps[first].Shares steps[second] →
    place first < place second

namespace Builder

/-- What the steps of a run give, in order. -/
def outcomes (builder : Builder) : List BuildStep → List (Except BuildError (Option Cell))
  | [] => []
  | step :: rest => (builder.perform step).1 :: outcomes (builder.perform step).2 rest

theorem getElem?_outcomes (builder : Builder) (steps : List BuildStep) (index : Nat) :
    (builder.outcomes steps)[index]? =
      steps[index]?.map fun step ↦ ((builder.performAll (steps.take index)).perform step).1 := by
  induction steps generalizing builder index with
  | nil => rfl
  | cons step rest ih =>
    cases index with
    | zero => rfl
    | succ index => exact ih (builder.perform step).2 index

/-! ### A table along a run -/

section Runs

variable (builder : Builder) {steps others : List BuildStep} {table : Table}

theorem performAll_take_succ {index : Nat} (h : index < steps.length) :
    builder.performAll (steps.take (index + 1)) =
      ((builder.performAll (steps.take index)).perform steps[index]).2 := by
  rw [List.take_succ_eq_append_getElem h, performAll_append]
  rfl

/-- A table stays as it is between two places of a run if no step between them is about it. -/
theorem content_take_eq {start stop : Nat} (hle : start ≤ stop)
    (h : ∀ index : Fin steps.length, start ≤ index → index < stop → table ∉ steps[index].tables) :
    (builder.performAll (steps.take stop)).content table =
      (builder.performAll (steps.take start)).content table := by
  induction stop, hle using Nat.le_induction with
  | base => rfl
  | succ stop hle ih =>
    have hbefore := ih fun index hstart hstop ↦ h index hstart (Nat.lt_succ_of_lt hstop)
    by_cases hlength : stop < steps.length
    · rw [performAll_take_succ builder hlength, ← hbefore]
      exact content_perform _ (h ⟨stop, hlength⟩ hle (Nat.lt_succ_self stop))
    · rw [List.take_of_length_le (Nat.le_succ_of_le (Nat.not_lt.mp hlength)), ← hbefore,
        List.take_of_length_le (Nat.not_lt.mp hlength)]

/-! ### Two runs -/

variable {place : Fin steps.length ≃ Fin others.length}

/-- Two steps that share a table are in the same order in both runs. -/
theorem place_lt_place_iff (h : Rearranges steps others place) {first second : Fin steps.length}
    (hshares : steps[first].Shares steps[second]) :
    first < second ↔ place first < place second := by
  constructor
  · intro hlt
    exact h.ordered first second hlt hshares
  · intro hlt
    by_contra hnot
    rcases (not_lt.mp hnot).lt_or_eq with hgt | heq
    · obtain ⟨table, hfirst, hsecond⟩ := hshares
      exact lt_asymm hlt (h.ordered second first hgt ⟨table, hsecond, hfirst⟩)
    · exact lt_irrefl _ (heq ▸ hlt)

/-- Before a step, the steps of a common table are the same in both runs. -/
theorem lt_iff_place_lt (h : Rearranges steps others place) {step : Fin steps.length}
    (htable : table ∈ steps[step].tables) (index : Fin steps.length)
    (hindex : table ∈ steps[index].tables) :
    index.val < step.val ↔ (place index).val < place step :=
  place_lt_place_iff h ⟨table, hindex, htable⟩

/-- A table holds the same in both runs wherever the steps that are about it have been the same. By
induction on the run: the last of these steps finds the same in all its tables. -/
theorem content_rearranged (h : Rearranges steps others place) {done moved : Nat}
    (hsame : ∀ index : Fin steps.length, table ∈ steps[index].tables →
      (index.val < done ↔ (place index).val < moved)) :
    (builder.performAll (others.take moved)).content table =
      (builder.performAll (steps.take done)).content table := by
  induction done generalizing table moved with
  | zero =>
    refine content_take_eq builder (Nat.zero_le moved) fun index _ hmoved htable ↦ ?_
    obtain ⟨step, rfl⟩ := place.surjective index
    rw [h.same] at htable
    exact Nat.not_lt_zero _ ((hsame step htable).mpr hmoved)
  | succ done ih =>
    by_cases htouched : ∃ step : Fin steps.length, step.val = done ∧ table ∈ steps[step].tables
    · obtain ⟨step, rfl, htable⟩ := htouched
      have hplace : (place step).val < moved := (hsame step htable).mp (Nat.lt_succ_self _)
      have hlast : (builder.performAll (others.take moved)).content table =
          (builder.performAll (others.take (place step + 1))).content table := by
        refine content_take_eq builder hplace fun index hstart hmoved hindex ↦ ?_
        obtain ⟨other, rfl⟩ := place.surjective index
        rw [h.same] at hindex
        -- it would stand after the last step of the table in the first run as well
        have hlt := (hsame other hindex).mpr hmoved
        have hgt := (lt_iff_place_lt h hindex step htable).mpr hstart
        omega
      have hbefore : Agree steps[step].tables (builder.performAll (others.take (place step)))
          (builder.performAll (steps.take step)) :=
        fun own hown ↦ ih fun index hindex ↦ lt_iff_place_lt h hown index hindex
      have hstep : others[(place step).val] = steps[step.val] := h.same step
      rw [hlast, performAll_take_succ builder (place step).isLt,
        performAll_take_succ builder step.isLt, hstep]
      exact (alike_perform hbefore).agree table htable
    · have hkept : (builder.performAll (steps.take (done + 1))).content table =
          (builder.performAll (steps.take done)).content table := by
        refine content_take_eq builder (Nat.le_succ done) fun index hstart hstop htable ↦ ?_
        exact htouched ⟨index, Nat.le_antisymm (Nat.le_of_lt_succ hstop) hstart, htable⟩
      rw [hkept]
      refine ih fun index htable ↦ ?_
      have hother : index.val ≠ done := fun heq ↦ htouched ⟨index, heq, htable⟩
      rw [← hsame index htable]
      omega

end Runs

/-- Whatever the builder is, and whether or not the steps fail: steps that are rearranged, such that
those that share a table keep their order, give the same results and build the same. -/
theorem outcomes_of_rearranges (builder : Builder) {steps others : List BuildStep}
    {place : Fin steps.length ≃ Fin others.length} (h : Rearranges steps others place) :
    (∀ index : Fin steps.length,
      (builder.outcomes others)[(place index).val]? = (builder.outcomes steps)[index.val]?) ∧
    builder.performAll others = builder.performAll steps := by
  constructor
  · intro index
    have hbefore : Agree steps[index].tables (builder.performAll (others.take (place index)))
        (builder.performAll (steps.take index)) :=
      fun table htable ↦ content_rearranged builder h (lt_iff_place_lt h htable)
    have hstep : others[(place index).val] = steps[index.val] := h.same index
    rw [getElem?_outcomes, getElem?_outcomes, List.getElem?_eq_getElem (place index).isLt,
      List.getElem?_eq_getElem index.isLt, hstep]
    exact congrArg some (alike_perform hbefore).value
  · refine eq_of_content fun table ↦ ?_
    have hsame : (builder.performAll (others.take others.length)).content table =
        (builder.performAll (steps.take steps.length)).content table :=
      content_rearranged builder h fun index _ ↦ iff_of_true index.isLt (place index).isLt
    rwa [List.take_length, List.take_length] at hsame

/-- A run in which steps about different tables alternate. A text is too long, and a slot is no
memory. -/
def interleavedSteps : List BuildStep :=
  [.text (utf8 "overlong"), .emit .program 4 0, .number ⟨0x3FF0000000000000⟩,
   .position (utf8 "main") 3, .slot 170, .literal ⟨.numeric, utf8 "1"⟩, .emit .init 130 0,
   .function (utf8 "f"), .slot 7]

/-- The same steps, table by table. -/
def groupedSteps : List BuildStep :=
  [.slot 7, .number ⟨0x3FF0000000000000⟩, .literal ⟨.numeric, utf8 "1"⟩, .emit .init 130 0,
   .text (utf8 "overlong"), .slot 170, .emit .program 4 0, .position (utf8 "main") 3,
   .function (utf8 "f")]

/-- Where the steps have gone. -/
def grouping : Fin 9 ≃ Fin 9 where
  toFun := ![4, 6, 1, 7, 5, 2, 3, 8, 0]
  invFun := ![8, 2, 5, 6, 0, 4, 1, 3, 7]
  left_inv := by unfold Function.LeftInverse; decide
  right_inv := by unfold Function.RightInverse Function.LeftInverse; decide

theorem outcomes_groupedSteps :
    Rearranges interleavedSteps groupedSteps grouping ∧
      (∀ index : Fin interleavedSteps.length,
        (outcomes (withTextLimit {} 5) groupedSteps)[(grouping index).val]? =
          (outcomes (withTextLimit {} 5) interleavedSteps)[index.val]?) ∧
      performAll (withTextLimit {} 5) groupedSteps =
        performAll (withTextLimit {} 5) interleavedSteps :=
  have hrearranges : Rearranges interleavedSteps groupedSteps grouping :=
    ⟨by decide +kernel, by decide +kernel⟩
  ⟨hrearranges, outcomes_of_rearranges _ hrearranges⟩

end Builder

end LineScript
