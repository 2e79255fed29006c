import LineScript.Proofs.Builder.Interning
import LineScript.Proofs.Image.Verification

/-!
Constants that are resolved and interned again. A reference to a constant stands for a literal, and
asking the builder for that literal gives the reference back, without any change: the maps find each
constant where the table holds it, and a number comes back from its text with all its bits, so that
signed zeros, infinities and the least numbers find their own entries. Only the NaNs that reading
never gives do not come back.
-/

set_option autoImplicit false
set_option relaxedAutoImplicit false

namespace LineScript.Builder

open Bytes

section Held

variable {builder : Builder} {ref : Cell}

theorem ref_eq_of {tag : Tag} (hcode : ref.code = tag.code) : Cell.of tag ref.value = ref := by
  rw [Cell.of, ← hcode]

/-- Asking for a number that the table holds gives its reference and changes nothing: the map finds
the number where it stands. -/
theorem number_of_held (hindexed : builder.Indexed) {value : Number}
    (hcode : ref.code = (Tag.constant .numeric).code)
    (h : builder.image.numbers[ref.value.toNat]? = some value) :
    builder.run (number value) = (.ok ref, builder) := by
  have hfound : builder.numberPlaces.lookup value.bits = some ref.value :=
    hindexed.finds_number ⟨hcode, h⟩
  rw [run_number, hfound]
  dsimp only
  rw [ref_eq_of hcode]

theorem text_of_held (hindexed : builder.Indexed) {value : Bytes}
    (hcode : ref.code = (Tag.constant .text).code)
    (h : builder.image.texts[ref.value.toNat]? = some value) :
    builder.run (text value) = (.ok ref, builder) := by
  have hfound : builder.textPlaces.lookup value = some ref.value :=
    hindexed.finds_text ⟨hcode, h⟩
  rw [run_text, hfound]
  dsimp only
  rw [ref_eq_of hcode]

/-- The literal of a number that reading can give denotes that number. -/
theorem literal_of_numberText {value : Number}
    (h : Number.infinity < value.magnitude → value = .nan) :
    literal ⟨.numeric, value.text⟩ = number value := by
  have hcanonical : value.canonical = value := by
    rw [Number.canonical]
    split_ifs with hnan
    · exact (h hnan).symm
    · rfl
  rw [literal, Number.read?_text, hcanonical]

end Held

/-- A reference to a constant can be resolved to a literal, and asking the builder for that literal
gives the same reference and leaves the builder as it is, its maps included. -/
theorem literal_of_constant (limits : List Int) (steps : List BuildStep) {image : Image}
    (h : ((limits.foldl withTextLimit {}).performAll steps).finish = .ok image)
    {ref : Cell} {type : ValueType} (hcode : ref.code = (Tag.constant type).code)
    (hinside : image.PointsInside ref.value.toNat (.constant type))
    (hnumber : type = .numeric → ∀ number, image.numbers[ref.value.toNat]? = some number →
      Number.infinity < number.magnitude → number = .nan) :
    ∃ word, image.constant ref = .ok word ∧
      ((limits.foldl withTextLimit {}).performAll steps).run (literal word) =
        (.ok ref, (limits.foldl withTextLimit {}).performAll steps) := by
  have hindexed := ((Sound.empty.withTextLimits limits).performAll steps).toIndexed
  generalize (limits.foldl withTextLimit {}).performAll steps = builder at *
  obtain ⟨rfl, -⟩ := image_of_finish h
  have htag := (ref.tag?_eq_some_iff _).mpr hcode
  cases type with
  | numeric =>
    have hheld := List.getElem?_eq_getElem hinside
    refine ⟨_, by rw [Image.constant, htag, hheld], ?_⟩
    rw [literal_of_numberText (hnumber rfl _ hheld)]
    exact number_of_held hindexed hcode hheld
  | text =>
    have hheld := List.getElem?_eq_getElem hinside
    refine ⟨_, by rw [Image.constant, htag, hheld], ?_⟩
    exact text_of_held hindexed hcode hheld

/-- A run that enters both zeros, the least number above zero, infinity and a text. -/
def extremeSteps : List BuildStep :=
  [.number ⟨0⟩, .literal ⟨.numeric, utf8 "-0"⟩, .number ⟨1⟩, .literal ⟨.numeric, utf8 "+inf"⟩,
   .text (utf8 "-0"), .emit .init 130 1, .function (utf8 "f"), .emit .program 131 0]

/-- The image that the run builds. -/
def extremeImage : Image where
  init := [⟨130, 1⟩]
  program := [⟨131, 0⟩]
  numbers := [⟨0⟩, ⟨0x8000000000000000⟩, ⟨1⟩, ⟨0x7FF0000000000000⟩]
  texts := [utf8 "-0"]
  functions := { entries := [(utf8 "f", 0)], distinct := by decide }

/-- The negative zero, which stands after the positive one, keeps its own reference. -/
theorem literal_of_constant_extremeSteps :
    (([4].foldl withTextLimit {}).performAll extremeSteps).finish = .ok extremeImage ∧
      extremeImage.numbers[1]? = some ⟨0x8000000000000000⟩ ∧
      ∃ word, extremeImage.constant ⟨130, 1⟩ = .ok word ∧
        (([4].foldl withTextLimit {}).performAll extremeSteps).run (literal word) =
          (.ok ⟨130, 1⟩, ([4].foldl withTextLimit {}).performAll extremeSteps) := by
  have himage : (([4].foldl withTextLimit {}).performAll extremeSteps).image = extremeImage := by
    decide +kernel
  have hverified : extremeImage.fault? = none := by
    rw [Image.fault?_eq_none_iff, Image.functionFault?_eq_none_iff]
    decide
  have hfinish : (([4].foldl withTextLimit {}).performAll extremeSteps).finish =
      .ok extremeImage := by
    rw [finish, himage, hverified]
  have hinside : extremeImage.PointsInside 1 (.constant .numeric) := show 1 < 4 by decide
  refine ⟨hfinish, rfl, literal_of_constant _ _ hfinish rfl hinside ?_⟩
  rintro - number hnumber hnan
  cases hnumber
  exact absurd hnan (by decide)

end LineScript.Builder
