import LineScript.Proofs.Builder.Writable
import LineScript.Proofs.Source.Strictness
import LineScript.Proofs.Word.Admissible
import LineScript.Settings.Basic

/-!
The limits on texts in sources and in images. Under settings that are accepted, the words that
tokenizing takes for texts are never too long for an image, so a builder has a reference for every
text of a line that is accepted. Strict reading makes a text of one more word, the name of an
included file. Names have no limit, so that text can be too long for the image, although the same
file is refused in quotes.
-/

set_option autoImplicit false
set_option relaxedAutoImplicit false

namespace LineScript

open Bytes

/-! ### Settings -/

/-- Settings that are accepted have limits within the format, and what is read from a source is
within the limit on images. -/
theorem Settings.limits_of_error? {settings : Settings} (h : settings.error? = none) :
    0 < settings.imageTextLimit ∧ settings.imageTextLimit ≤ LineScript.imageTextLimit ∧
      0 < settings.readingRules.textLimit ∧
      settings.readingRules.textLimit ≤ settings.imageTextLimit := by
  unfold error? at h
  split_ifs at h with himage hsource
  unfold readingRules
  dsimp only
  split_ifs <;> omega

/-- The builder with the limit that settings give. -/
def Settings.configure (settings : Settings) (builder : Builder) : Builder :=
  builder.withTextLimit settings.imageTextLimit

/-! ### Words -/

/-- A text of a line that is accepted is within the limit on sources, unless it is the name of a
file that a strict line includes. -/
theorem length_le_of_mem_readLine {rules : ReadingRules} {number : Int} {source : Bytes}
    {word : Word} (hlimit : 0 < rules.textLimit)
    (haccepted : (readLine rules number source).error = none)
    (hword : word ∈ (readLine rules number source).line.words) (htext : word.kind = .text) :
    word.text.length ≤ rules.textLimit ∨
      rules.strict = true ∧
        (tokenize rules.textLimit source).words.filter (!·.isTab) = inclusion word.text := by
  have hscanned : word ∈ (tokenize rules.textLimit source).words.filter (!·.isTab) →
      word.text.length ≤ rules.textLimit := by
    intro hmem
    have hsound := isSound_tokenize rules.textLimit source
    have hadmissible := hsound.admissible word (List.mem_filter.mp hmem).1
    exact (hadmissible.2 htext).resolve_left (Int.not_le.mpr hlimit)
  rcases readLine_cases rules number source with ⟨error, -, hreading⟩ | ⟨-, hreading⟩
  · rw [hreading] at haccepted
    cases haccepted
  · generalize (tokenize rules.textLimit source).words.filter (!·.isTab) = words at *
    generalize readLine rules number source = reading at *
    cases hreading with
    | blank => cases hword
    | misled hlead => cases haccepted
    | violating hlead hstrict hviolation => cases haccepted
    | strict hlead hstrict hviolation =>
      exact (mem_of_mem_includedAsText hviolation hword).imp hscanned (⟨hstrict, ·⟩)
    | plain hlead hstrict => exact .inl (hscanned hword)

/-! ### Builders -/

namespace Builder

/-- The limit of a builder, which all its texts are within. -/
structure HasLimit (builder : Builder) (limit : Nat) : Prop where
  textLimit : builder.textLimit = limit
  texts : ∀ text ∈ builder.image.texts, text.length ≤ limit

section Limits

variable {builder next : Builder} {limit : Nat} {text : Bytes}

theorem HasLimit.edit (hedit : Edit builder next) (h : builder.HasLimit limit) :
    next.HasLimit limit := by
  cases hedit with
  | text hnew hlength hzero hroom =>
    refine ⟨h.textLimit, List.forall_mem_append.mpr ⟨h.texts, ?_⟩⟩
    exact List.forall_mem_singleton.mpr (h.textLimit ▸ hlength)
  | @append codeSection cell hfits hroom => cases codeSection <;> exact ⟨h.textLimit, h.texts⟩
  | @patch codeSection address cell hfits => cases codeSection <;> exact ⟨h.textLimit, h.texts⟩
  | _ => exact ⟨h.textLimit, h.texts⟩

theorem hasLimit_configure {settings : Settings} (h : settings.error? = none) :
    (settings.configure {}).HasLimit settings.imageTextLimit.toNat := by
  obtain ⟨hpos, hformat, -, -⟩ := settings.limits_of_error? h
  rw [Settings.configure, withTextLimit, if_pos ⟨hpos, hformat⟩]
  exact ⟨rfl, List.forall_mem_nil _⟩

/-- A table that is not full takes every text within the limit. -/
theorem exists_text_of_room (hlength : text.length ≤ builder.textLimit) (hzero : 0 ∉ text)
    (hroom : builder.image.texts.length ≤ maxValue) :
    ∃ ref next, builder.run (Builder.text text) = (.ok ref, next) := by
  rw [run_text]
  split
  · exact ⟨_, _, rfl⟩
  · have hvalue : (UInt32.ofNat builder.image.texts.length).toNat ≤ maxValue := by
      rw [UInt32.toNat_ofNat']
      exact (Nat.mod_le _ _).trans hroom
    have href : nextRef (.constant .text) builder.image.texts.length =
        .ok ⟨(Tag.constant .text).code, UInt32.ofNat builder.image.texts.length⟩ :=
      if_pos (decide_eq_true hvalue)
    rw [if_neg (Nat.not_lt.mpr hlength), if_neg (mt List.contains_iff_mem.mp hzero), href]
    exact ⟨_, _, rfl⟩

theorem text_of_too_long (hindexed : builder.Indexed) (h : builder.HasLimit limit)
    (hlong : limit < text.length) :
    builder.run (Builder.text text) = (.error (.textTooLong text), builder) := by
  have hnew : text ∉ builder.image.texts :=
    fun hmem ↦ Nat.not_le.mpr hlong (h.texts text hmem)
  rw [run_text, hindexed.textPlaces.lookup_eq_none_iff.mpr hnew]
  exact if_pos (h.textLimit ▸ hlong)

theorem literal_of_text {word : Word} (h : word.kind = .text) :
    literal word = Builder.text word.text := by
  rw [literal, h]

end Limits

/-- Whatever has been built under settings that are accepted: a text of an accepted line gets a
reference if the table of texts is not full, unless a strict line includes a file whose name is
longer than the texts of the image may be. -/
theorem literal_of_readLine {settings : Settings} (hsettings : settings.error? = none)
    {number : Int} {source : Bytes} {word : Word} {steps : List BuildStep}
    (haccepted : (readLine settings.readingRules number source).error = none)
    (hword : word ∈ (readLine settings.readingRules number source).line.words)
    (htext : word.kind = .text) (hzero : 0 ∉ word.text)
    (hroom : ((settings.configure {}).performAll steps).image.texts.length ≤ maxValue) :
    (∃ ref next,
      ((settings.configure {}).performAll steps).run (literal word) = (.ok ref, next)) ∨
    settings.strict = true ∧
      (tokenize settings.readingRules.textLimit source).words.filter (!·.isTab) =
        inclusion word.text ∧
      settings.imageTextLimit < word.text.length ∧
      ((settings.configure {}).performAll steps).run (literal word) =
        (.error (.textTooLong word.text), (settings.configure {}).performAll steps) := by
  obtain ⟨hpos, -, hreads, hwithin⟩ := settings.limits_of_error? hsettings
  have hlimit := performAll_induction HasLimit.edit _ (hasLimit_configure hsettings) steps
  have hsound : ((settings.configure {}).performAll steps).Sound :=
    (Sound.empty.withTextLimit settings.imageTextLimit).performAll steps
  rw [literal_of_text htext]
  by_cases hlength : word.text.length ≤ settings.imageTextLimit
  · left
    refine exists_text_of_room ?_ hzero hroom
    rw [hlimit.textLimit]
    omega
  · right
    have hincluded := length_le_of_mem_readLine hreads haccepted hword htext
    obtain ⟨hstrict, hwords⟩ := hincluded.resolve_left fun hle ↦ hlength (hle.trans hwithin)
    exact ⟨hstrict, hwords, Int.not_le.mp hlength,
      text_of_too_long hsound.toIndexed hlimit (by omega)⟩

/-- Strict settings under which texts have at most four bytes. -/
def narrowSettings : Settings where
  sourceTextLimit := 0
  strict := true
  imageTextLimit := 4

/-- A line with an escaped quote. -/
def escapedLine : Bytes := utf8 "include \"a\\\"bc\""

/-- The text of the line, which has four bytes once it is read. -/
def escapedText : Bytes := utf8 "a\"bc"

/-- The text gets a reference, although a longer one was refused before. -/
theorem literal_of_escapedLine :
    narrowSettings.error? = none ∧
      (readLine narrowSettings.readingRules 7 escapedLine).error = none ∧
      ⟨.text, escapedText⟩ ∈ (readLine narrowSettings.readingRules 7 escapedLine).line.words ∧
      0 ∉ escapedText ∧
      ((narrowSettings.configure {}).performAll mixedSteps).image.texts.length ≤ maxValue ∧
      ((∃ ref next, ((narrowSettings.configure {}).performAll mixedSteps).run
          (literal ⟨.text, escapedText⟩) = (.ok ref, next)) ∨
        narrowSettings.strict = true ∧
          (tokenize narrowSettings.readingRules.textLimit escapedLine).words.filter (!·.isTab) =
            inclusion escapedText ∧
          narrowSettings.imageTextLimit < escapedText.length ∧
          ((narrowSettings.configure {}).performAll mixedSteps).run
              (literal ⟨.text, escapedText⟩) =
            (.error (.textTooLong escapedText),
              (narrowSettings.configure {}).performAll mixedSteps)) := by
  have hsettings : narrowSettings.error? = none := by decide +kernel
  have haccepted : (readLine narrowSettings.readingRules 7 escapedLine).error = none := by
    decide +kernel
  have hword : ⟨.text, escapedText⟩ ∈
      (readLine narrowSettings.readingRules 7 escapedLine).line.words := by
    decide +kernel
  have hzero : 0 ∉ escapedText := by decide +kernel
  have hroom :
      ((narrowSettings.configure {}).performAll mixedSteps).image.texts.length ≤ maxValue := by
    decide +kernel
  exact ⟨hsettings, haccepted, hword, hzero, hroom,
    literal_of_readLine hsettings haccepted hword rfl hzero hroom⟩

/-- A file may have a name that is too long for the image, where the same file in quotes is
refused as the line is read. -/
theorem literal_of_included_name :
    narrowSettings.error? = none ∧
      readLine narrowSettings.readingRules 0 (utf8 "include mainfile") =
        ⟨⟨0, 0, [⟨.name, utf8 "include"⟩, ⟨.text, utf8 "mainfile"⟩]⟩, none⟩ ∧
      (narrowSettings.configure {}).run (literal ⟨.text, utf8 "mainfile"⟩) =
        (.error (.textTooLong (utf8 "mainfile")), narrowSettings.configure {}) ∧
      (readLine narrowSettings.readingRules 0 (utf8 "include \"mainfile\"")).error =
        some (.lexical (.textTooLong (utf8 "mainfile"))) := by
  decide +kernel

end Builder

end LineScript
