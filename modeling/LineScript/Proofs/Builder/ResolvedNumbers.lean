import LineScript.Proofs.Builder.Interning
import LineScript.Proofs.Image.Verification
import LineScript.Proofs.Number.Positional
import LineScript.Proofs.Word.Admissible

/-!
Resolved numbers as words of a line. The literal of a line that a number was entered from has no
sign and no exponent. The text that the number is resolved to denotes the same number, and it is
again such a literal for zero and for the numbers from one ten-thousandth up to a million. All
others are written with an exponent, which a line cannot hold as one word.
-/

set_option autoImplicit false
set_option relaxedAutoImplicit false

namespace LineScript

open Bytes

/-! ### Numerals of a line -/

/-- Exactly the numerals are read as one number and nothing else. -/
theorem tokenize_eq_numeric_iff (limit : Int) (text : Bytes) :
    tokenize limit text = ⟨[⟨.numeric, text⟩], none⟩ ↔ isNumeral text = true := by
  constructor
  · intro h
    have hadmissible := (isSound_tokenize limit text).admissible ⟨.numeric, text⟩
    rw [h] at hadmissible
    exact (hadmissible List.mem_cons_self).1
  · intro h
    have hform : (Word.mk .numeric text).isWellFormed = true := h
    have hlegible : (Word.mk .numeric text).isLegible = true :=
      (Word.isLegible_iff _).mpr ⟨hform, by simp, by simp⟩
    have hscan := scan_render hlegible (by simp) (by simp) EndsWord.nil
    rw [Word.render, List.append_nil] at hscan
    rw [tokenize_of_scan hscan (by simp) (by simp), Word.refusal?_eq_none hform (by simp),
      tokenize_nil]
    rfl

namespace Number

theorem isNumeral_positional {digits : Bytes} (hdigits : Digits digits) (hne : digits ≠ [])
    (whole : Int) : isNumeral (positional digits whole) = true := by
  obtain ⟨before, hbefore, hall, htext | ⟨after, hafter, htext⟩⟩ :=
    positional_cases hdigits hne whole
  · rw [htext]
    exact (isNumeral_of_parts hbefore hall).1
  · rw [htext]
    exact (isNumeral_of_parts hbefore hall).2 after hafter

theorem not_isNumeral_scientific (digits : Bytes) (exponent : Int) :
    isNumeral (scientific digits exponent) = false := by
  have hletter : 0x65 ∈ scientific digits exponent := by simp [scientific]
  rw [Bool.eq_false_iff]
  intro hnumeral
  rw [isNumeral, Bool.and_eq_true, Bool.and_eq_true, List.all_eq_true] at hnumeral
  exact absurd (hnumeral.1.2 _ hletter) (by decide)

/-- The text of a finite number without a sign is a numeral for zero and for moderate numbers. -/
theorem isNumeral_text_iff {number : Number} (hsign : number.isNegative = false)
    (hfinite : number.magnitude < infinity) :
    isNumeral number.text = true ↔ number.magnitude = 0 ∨ IsModerate number.magnitude := by
  rw [text, hsign, if_neg (Nat.lt_asymm hfinite), if_neg (Nat.ne_of_lt hfinite)]
  by_cases hzero : number.magnitude = 0
  · rw [if_pos hzero]
    exact iff_of_true rfl (Or.inl hzero)
  rw [if_neg hzero, or_iff_right hzero, if_neg Bool.false_ne_true, List.nil_append]
  by_cases hmoderate : IsModerate number.magnitude
  · obtain ⟨whole, htext⟩ := finiteText_of_isModerate hzero hmoderate
    rw [htext]
    have hnumeral := isNumeral_positional (digits_shortestDigits _) (shortestDigits_ne_nil hzero)
    exact iff_of_true (hnumeral whole) hmoderate
  · obtain ⟨exponent, htext⟩ := finiteText_of_not_isModerate hzero hmoderate
    rw [htext, not_isNumeral_scientific]
    exact iff_of_false Bool.false_ne_true hmoderate

theorem isNegative_ofMagnitude {magnitude : Nat} (h : magnitude ≤ infinity) :
    (ofMagnitude false magnitude).isNegative = false := by
  have hsmall : infinity < 2 ^ 63 := by decide
  rw [ofMagnitude, isNegative, UInt64.toNat_ofNat', decide_eq_false_iff_not]
  simp only [Bool.false_eq_true, if_false]
  omega

/-- A numeral denotes a finite number without a sign, if any. -/
theorem finite_of_read? {text : Bytes} {number : Number} (hnumeral : isNumeral text = true)
    (h : read? text = some number) : number.isNegative = false ∧ number.magnitude < infinity := by
  obtain ⟨digit, rest, rfl, hdigit⟩ := exists_cons_of_isNumeral hnumeral
  rw [(read?_of_digit hdigit rest).1, Option.bind_eq_some_iff] at h
  obtain ⟨magnitude, -, hnumber⟩ := h
  split_ifs at hnumber with hfinite
  cases hnumber
  refine ⟨isNegative_ofMagnitude hfinite.le, ?_⟩
  rw [magnitude_ofMagnitude _ hfinite.le]
  exact hfinite

end Number

namespace Builder

/-- What a numeric literal is entered as, in any image that is built with it. -/
theorem constant_of_literal {builder next : Builder} (hsound : builder.Sound) {word : Word}
    (hkind : word.kind = .numeric) {ref : Cell}
    (h : builder.run (literal word) = (.ok ref, next)) (steps : List BuildStep) :
    ∃ number, Number.read? word.text = some number ∧
      (next.performAll steps).image.constant ref = .ok ⟨.numeric, number.text⟩ := by
  have hnext : (builder.perform (.literal word)).2 = next := by
    rw [perform, act, run_map, h]
  have hsoundNext : next.Sound := hnext ▸ hsound.perform (.literal word)
  obtain ⟨operand, hoperand, henters⟩ := exists_enters_of_literal hsound h
  rw [BuildStep.operand?, hkind] at hoperand
  obtain ⟨number, hnumber, rfl⟩ := Option.map_eq_some_iff.mp hoperand
  obtain ⟨hcode, hheld⟩ := denotes_performAll hsoundNext henters.denotes steps
  have htag := (ref.tag?_eq_some_iff (.constant .numeric)).mpr hcode
  change (next.performAll steps).image.numbers[ref.value.toNat]? = some number at hheld
  exact ⟨number, hnumber, by rw [Image.constant, htag, hheld]⟩

/-- A number that a line holds is resolved to a literal of the same number. This literal is a
numeral, and a line that reads as this one word, exactly if the number is zero or moderate. -/
theorem isNumeral_constant_iff (limit : Int) (line : Bytes) {word : Word}
    (hword : word ∈ (tokenize limit line).words) (hkind : word.kind = .numeric)
    (limits : List Int) (steps more : List BuildStep) {ref : Cell} {next : Builder}
    (h : ((limits.foldl withTextLimit {}).performAll steps).run (literal word) = (.ok ref, next))
    {image : Image} (hfinish : (next.performAll more).finish = .ok image) :
    ∃ number resolved, Number.read? word.text = some number ∧
      image.constant ref = .ok resolved ∧ resolved.kind = .numeric ∧
      Number.read? resolved.text = some number ∧
      (isNumeral resolved.text = true ↔
        number.magnitude = 0 ∨ Number.IsModerate number.magnitude) ∧
      ∀ limit, tokenize limit resolved.text = ⟨[resolved], none⟩ ↔
        number.magnitude = 0 ∨ Number.IsModerate number.magnitude := by
  have hsound := (Sound.empty.withTextLimits limits).performAll steps
  obtain ⟨number, hread, hconstant⟩ := constant_of_literal hsound hkind h more
  rw [(image_of_finish hfinish).1] at hconstant
  have hnumeral : isNumeral word.text = true := by
    have hform := ((isSound_tokenize limit line).admissible word hword).1
    rwa [Word.isWellFormed, hkind] at hform
  obtain ⟨hsign, hfinite⟩ := Number.finite_of_read? hnumeral hread
  have hmoderate := Number.isNumeral_text_iff hsign hfinite
  have hsame : Number.read? number.text = some number := by
    rw [Number.read?_text, Number.canonical_of_read? hread]
  exact ⟨number, ⟨.numeric, number.text⟩, hread, hconstant, rfl, hsame, hmoderate,
    fun limit ↦ (tokenize_eq_numeric_iff limit number.text).trans hmoderate⟩

/-- An image with zero and one ten-thousandth, to which its only cell refers. -/
def pinchImage : Image where
  program := [⟨130, 1⟩]
  numbers := [⟨0⟩, ⟨0x3F1A36E2EB1C432D⟩]
  functions := { entries := [(utf8 "g", 0)], distinct := by decide }

/-- The least number that is written without an exponent. -/
theorem isNumeral_constant_iff_pinchImage :
    ⟨.numeric, utf8 "00.00010"⟩ ∈ (tokenize 256 (utf8 "$x = (00.00010)")).words ∧
      (∃ next, (([4].foldl withTextLimit {}).performAll [.number ⟨0⟩]).run
          (literal ⟨.numeric, utf8 "00.00010"⟩) = (.ok ⟨130, 1⟩, next) ∧
        (next.performAll [.function (utf8 "g"), .emit .program 130 1]).finish = .ok pinchImage) ∧
      ∃ number resolved, Number.read? (utf8 "00.00010") = some number ∧
        pinchImage.constant ⟨130, 1⟩ = .ok resolved ∧ resolved.kind = .numeric ∧
        Number.read? resolved.text = some number ∧
        (isNumeral resolved.text = true ↔
          number.magnitude = 0 ∨ Number.IsModerate number.magnitude) ∧
        ∀ limit, tokenize limit resolved.text = ⟨[resolved], none⟩ ↔
          number.magnitude = 0 ∨ Number.IsModerate number.magnitude := by
  have hword : Word.mk .numeric (utf8 "00.00010") ∈
      (tokenize 256 (utf8 "$x = (00.00010)")).words := by
    decide +kernel
  obtain ⟨next, hliteral, himage⟩ : ∃ next,
      (([4].foldl withTextLimit {}).performAll [.number ⟨0⟩]).run
        (literal ⟨.numeric, utf8 "00.00010"⟩) = (.ok ⟨130, 1⟩, next) ∧
      (next.performAll [.function (utf8 "g"), .emit .program 130 1]).image = pinchImage :=
    ⟨((([4].foldl withTextLimit {}).performAll [.number ⟨0⟩]).perform
      (.literal ⟨.numeric, utf8 "00.00010"⟩)).2, by decide +kernel⟩
  have hverified : pinchImage.fault? = none := by
    rw [Image.fault?_eq_none_iff, Image.functionFault?_eq_none_iff]
    decide
  have hfinish : (next.performAll [.function (utf8 "g"), .emit .program 130 1]).finish =
      .ok pinchImage := by
    rw [finish, himage, hverified]
  exact ⟨hword, ⟨next, hliteral, hfinish⟩,
    isNumeral_constant_iff 256 _ hword rfl [4] [.number ⟨0⟩] _ hliteral hfinish⟩

/-- A million comes back with an exponent, and a line reads its text as four words. -/
theorem tokenize_constant_million :
    tokenize 256 (utf8 "1000000") = ⟨[⟨.numeric, utf8 "1000000"⟩], none⟩ ∧
      (∃ next image,
        ({} : Builder).run (literal ⟨.numeric, utf8 "1000000"⟩) = (.ok ⟨130, 0⟩, next) ∧
        next.finish = .ok image ∧
        image.constant ⟨130, 0⟩ = .ok ⟨.numeric, utf8 "1e+06"⟩) ∧
      isNumeral (utf8 "1e+06") = false ∧
      tokenize 256 (utf8 "1e+06") =
        ⟨[⟨.numeric, utf8 "1"⟩, ⟨.name, utf8 "e"⟩, ⟨.operator, utf8 "+"⟩, ⟨.numeric, utf8 "06"⟩],
          none⟩ := by
  have hliteral : ({} : Builder).run (literal ⟨.numeric, utf8 "1000000"⟩) =
      (.ok ⟨130, 0⟩, { image := { numbers := [⟨0x412E848000000000⟩] }
                       numberPlaces := [(0x412E848000000000, 0)] }) := by
    decide +kernel
  have hverified : Image.fault? { numbers := [⟨0x412E848000000000⟩] } = none := by
    rw [Image.fault?_eq_none_iff, Image.functionFault?_eq_none_iff]
    decide
  have hfinish : finish { image := { numbers := [⟨0x412E848000000000⟩] }
                          numberPlaces := [(0x412E848000000000, 0)] } =
      .ok { numbers := [⟨0x412E848000000000⟩] } := by
    rw [finish, hverified]
  exact ⟨by decide +kernel, ⟨_, _, hliteral, hfinish, by decide +kernel⟩, rfl, by decide +kernel⟩

end Builder

end LineScript
