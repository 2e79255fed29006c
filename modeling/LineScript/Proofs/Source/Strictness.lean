import LineScript.Proofs.Source.Linewise
import LineScript.Proofs.Statement.Validation

/-!
Strict and lenient reading of one source. Strict reading refuses more lines and makes the name of an
included file a text; in all else the two go along the lines together, at the same scopes and
numbers. So strict reading keeps a beginning of the lines that lenient reading keeps, a source that
it reads to the end is read to the end without it, and it stops no later.
-/

set_option autoImplicit false
set_option relaxedAutoImplicit false

namespace LineScript

open Bytes

/-! ### Inclusions -/

/-- A file included by its name. -/
def inclusion (name : Bytes) : List Word :=
  [⟨.name, Statement.Keyword.includeFile.spelling⟩, ⟨.name, name⟩]

/-- The words after the keyword that includes a file. -/
theorem words_of_include {keyword file : Word} {rest : List Word}
    (hnamed : keyword.isNamed Statement.Keyword.includeFile.spelling = true)
    (h : Statement.violation? (keyword :: file :: rest) = none) :
    keyword = ⟨.name, Statement.Keyword.includeFile.spelling⟩ ∧ rest = [] ∧
      (file.kind = .text ∨ file.kind = .name) := by
  obtain ⟨kind, text⟩ := keyword
  rw [Word.isNamed, Bool.and_eq_true, beq_iff_eq, beq_iff_eq] at hnamed
  obtain ⟨hkind, htext⟩ := hnamed
  dsimp only at hkind htext
  subst hkind htext
  have hkeyword := (Statement.ofText?_eq_some_iff _ Statement.Keyword.includeFile).mpr rfl
  rw [Statement.violation?, hkeyword] at h
  have hfollows : Statement.Follows .all .includeFile (file :: rest) :=
    (Statement.keywordViolation?_eq_none_iff _ _).mp h
  cases hfollows with
  | file hfile => exact ⟨rfl, rfl, hfile⟩

/-- Of the words of a statement only the name of an included file is made another word. -/
theorem mem_of_mem_includedAsText {words : List Word} {word : Word}
    (hviolation : Statement.violation? words = none) (hword : word ∈ includedAsText words) :
    word ∈ words ∨ words = inclusion word.text := by
  rcases words with _ | ⟨keyword, _ | ⟨file, rest⟩⟩
  · exact .inl hword
  · exact .inl hword
  · rw [includedAsText] at hword
    split_ifs at hword with hnamed
    · obtain ⟨hkeyword, rfl, hfile⟩ := words_of_include hnamed hviolation
      obtain ⟨kind, name⟩ := file
      rcases List.mem_pair.mp hword with rfl | rfl
      · exact .inl List.mem_cons_self
      · rcases hfile with rfl | rfl
        · exact .inl (List.mem_cons_of_mem _ List.mem_cons_self)
        · exact .inr (by rw [hkeyword, inclusion])
    · exact .inl hword

/-! ### One line -/

/-- A file included by a text. -/
def inclusionAsText (name : Bytes) : List Word :=
  [⟨.name, Statement.Keyword.includeFile.spelling⟩, ⟨.text, name⟩]

/-- What strict reading makes of a line: the name of an included file becomes a text, and every
other line stays as it is. -/
inductive Line.StrictForm : Line → Line → Prop where
  | inclusion (scope : Nat) (number : Int) (name : Bytes) :
      StrictForm ⟨scope, number, inclusion name⟩ ⟨scope, number, inclusionAsText name⟩
  | other {line : Line} (h : ∀ name, line.words ≠ inclusion name) : StrictForm line line

theorem Line.StrictForm.scope_eq {line strict : Line} (h : line.StrictForm strict) :
    strict.scope = line.scope := by
  cases h <;> rfl

theorem Line.StrictForm.hasWords_eq {line strict : Line} (h : line.StrictForm strict) :
    strict.hasWords = line.hasWords := by
  cases h <;> rfl

/-- Of a statement that has its shape, only an inclusion changes. -/
theorem strictForm_includedAsText {words : List Word} (h : Statement.violation? words = none)
    (scope : Nat) (number : Int) :
    Line.StrictForm ⟨scope, number, words⟩ ⟨scope, number, includedAsText words⟩ := by
  rcases words with _ | ⟨keyword, _ | ⟨file, rest⟩⟩
  · exact .other (by rintro name ⟨⟩)
  · exact .other (by rintro name ⟨⟩)
  · rw [includedAsText]
    split_ifs with hnamed
    · obtain ⟨rfl, rfl, hfile⟩ := words_of_include hnamed h
      obtain ⟨kind, name⟩ := file
      rcases hfile with rfl | rfl
      · exact .other (by rintro other ⟨⟩)
      · exact .inclusion scope number name
    · refine .other ?_
      rintro name ⟨⟩
      exact hnamed rfl

/-- Strict and lenient reading of a line. Either both refuse it for the same reason, or only strict
reading does, for the shape of its statement, or it is accepted and has its strict form. -/
inductive ReadTogether (lenient strict : LineReading) : Prop where
  | refused {error : LineError} (hlenient : lenient.error = some error)
      (hstrict : strict.error = some error)
  | violating {violation : Statement.Violation} (hlenient : lenient.error = none)
      (hstrict : strict.error = some (.statement violation))
  | accepted (hlenient : lenient.error = none) (hstrict : strict.error = none)
      (hform : lenient.line.StrictForm strict.line)

theorem ReadsTo.together {rules : ReadingRules} {number : Int} {scope : Nat} {words : List Word}
    {lenient strict : LineReading}
    (hlenient : ReadsTo { rules with strict := false } number scope words lenient)
    (hstrict : ReadsTo { rules with strict := true } number scope words strict) :
    ReadTogether lenient strict := by
  cases hlenient with
  | blank =>
    cases hstrict with
    | blank => exact .accepted rfl rfl (.other (by rintro name ⟨⟩))
  | misled hlead =>
    cases hstrict with
    | misled => exact .refused rfl rfl
    | violating hleads => exact absurd (hlead.symm.trans hleads) Bool.false_ne_true
    | strict hleads => exact absurd (hlead.symm.trans hleads) Bool.false_ne_true
    | plain _ hlax => cases hlax
  | violating _ hlax => cases hlax
  | strict _ hlax => cases hlax
  | plain hlead =>
    cases hstrict with
    | misled hmisled => exact absurd (hmisled.symm.trans hlead) Bool.false_ne_true
    | violating => exact .violating rfl rfl
    | strict _ _ hviolation =>
      exact .accepted rfl rfl (strictForm_includedAsText hviolation scope number)
    | plain _ hlax => cases hlax

theorem readTogether_readLine (rules : ReadingRules) (number : Int) (text : Bytes) :
    ReadTogether (readLine { rules with strict := false } number text)
      (readLine { rules with strict := true } number text) := by
  rcases readLine_cases { rules with strict := false } number text with
    ⟨error, herror, hlenient⟩ | ⟨herror, hlenient⟩
  · rcases readLine_cases { rules with strict := true } number text with
      ⟨error', herror', hstrict⟩ | ⟨herror', -⟩
    · obtain rfl : error = error' := Option.some.inj (herror.symm.trans herror')
      rw [hlenient, hstrict]
      exact .refused rfl rfl
    · cases herror.symm.trans herror'
  · rcases readLine_cases { rules with strict := true } number text with
      ⟨error', herror', -⟩ | ⟨-, hstrict⟩
    · cases herror.symm.trans herror'
    · exact hlenient.together hstrict

/-! ### Sources -/

/-- Reading stops at no line before the first one. -/
theorem le_number_of_mem_stop {rules : ReadingRules} {failure : Option StreamFailure}
    {number scope : Nat} {texts : List Bytes} {stop : Stop}
    (h : stop ∈ (readLines rules failure number scope texts).stop) : number ≤ stop.number := by
  rcases readLines_cases rules failure number scope texts with
    ⟨index, reading, -, -, hsource⟩ | ⟨-, hsource⟩
  · rw [hsource] at h
    cases h
    exact Nat.le_add_right number index
  · rw [hsource] at h
    obtain ⟨message, -, rfl⟩ := Option.map_eq_some_iff.mp h
    exact Nat.le_add_right number texts.length

/-- A source as strict reading gives it, beside the same source as lenient reading gives it. -/
structure Source.Restricts (strict lenient : Source) : Prop where
  /-- Strict reading keeps the strict forms of the first lines that lenient reading keeps. -/
  lines : ∃ kept rest, lenient.lines = kept ++ rest ∧
    List.Forall₂ Line.StrictForm kept strict.lines
  /-- What strict reading reads to the end, lenient reading does, and keeps as many lines. -/
  accepted : strict.stop = none →
    lenient.stop = none ∧ lenient.lines.length = strict.lines.length
  /-- Where lenient reading stops, strict reading stops, or before. -/
  stops : ∀ stop ∈ lenient.stop, ∃ earlier ∈ strict.stop, earlier.number ≤ stop.number
  /-- Strict reading stops for no other reason than lenient reading, or the shape of a statement. -/
  causes : ∀ stop ∈ strict.stop,
    stop ∈ lenient.stop ∨ ∃ violation, stop.cause = .line (.statement violation)

/-- A source of which strict reading does not get past the first line. -/
theorem restricts_of_stop {lenient : Source} {first : Stop}
    (hnumber : ∀ stop ∈ lenient.stop, first.number ≤ stop.number)
    (hcause : first ∈ lenient.stop ∨ ∃ violation, first.cause = .line (.statement violation)) :
    Source.Restricts ⟨[], some first⟩ lenient where
  lines := ⟨[], lenient.lines, rfl, .nil⟩
  accepted := by rintro ⟨⟩
  stops := fun stop hstop ↦ ⟨first, rfl, hnumber stop hstop⟩
  causes := by
    rintro stop ⟨⟩
    exact hcause

theorem Source.Restricts.cons {strict lenient : Source} (h : strict.Restricts lenient)
    {line form : Line} (hform : line.StrictForm form) :
    (strict.cons form).Restricts (lenient.cons line) := by
  obtain ⟨kept, rest, hlines, hkept⟩ := h.lines
  have hwords := hform.hasWords_eq
  rw [source_cons_eq, source_cons_eq]
  by_cases hline : line.hasWords = true
  · rw [List.filter_cons_of_pos hline, List.filter_cons_of_pos (hwords.trans hline)]
    refine ⟨⟨line :: kept, rest, congrArg (line :: ·) hlines, .cons hform hkept⟩, ?_, h.stops,
      h.causes⟩
    intro hstop
    obtain ⟨hlenient, hlength⟩ := h.accepted hstop
    exact ⟨hlenient, congrArg (· + 1) hlength⟩
  · rw [List.filter_cons_of_neg hline, List.filter_cons_of_neg (hwords ▸ hline)]
    exact ⟨⟨kept, rest, hlines, hkept⟩, h.accepted, h.stops, h.causes⟩

/-- The two readings go along the lines together as long as neither stops. -/
theorem restricts_readLines (rules : ReadingRules) (failure : Option StreamFailure)
    (number scope : Nat) (texts : List Bytes) :
    (readLines { rules with strict := true } failure number scope texts).Restricts
      (readLines { rules with strict := false } failure number scope texts) := by
  induction texts generalizing number scope with
  | nil =>
    exact ⟨⟨[], [], rfl, .nil⟩, fun hstop ↦ ⟨hstop, rfl⟩,
      fun stop hstop ↦ ⟨stop, hstop, Nat.le_refl _⟩, fun stop hstop ↦ .inl hstop⟩
  | cons text rest ih =>
    have hnumber : ∀ stop ∈ (readLines { rules with strict := false } failure number scope
        (text :: rest)).stop, number ≤ stop.number := fun stop ↦ le_number_of_mem_stop
    cases readTogether_readLine rules number text with
    | refused hlenient hstrict =>
      rw [readLines_cons_of_error hstrict]
      exact restricts_of_stop hnumber (.inl (by rw [readLines_cons_of_error hlenient]; rfl))
    | @violating violation hlenient hstrict =>
      rw [readLines_cons_of_error hstrict]
      exact restricts_of_stop hnumber (.inr ⟨violation, rfl⟩)
    | accepted hlenient hstrict hform =>
      have hscope := hform.scope_eq
      by_cases hdeep : scope + 1 < (readLine { rules with strict := true } number text).line.scope
      · rw [readLines_cons_of_deep hstrict hdeep]
        refine restricts_of_stop hnumber (.inl ?_)
        rw [readLines_cons_of_deep hlenient (hscope ▸ hdeep), hscope]
        rfl
      · have hfits := Nat.not_lt.mp hdeep
        rw [readLines_cons_of_fits hstrict hfits, readLines_cons_of_fits hlenient (hscope ▸ hfits),
          hscope]
        exact (ih _ _).cons hform

/-- Strict reading of a source keeps the strict forms of the first lines that lenient reading keeps.
If it reads to the end, so does lenient reading, and keeps as many lines. Where lenient reading
stops, strict reading stops there or before, and what it refuses beyond that are statements without
their shape. -/
theorem restricts_readSource (rules : ReadingRules) (stream : ByteStream) :
    (∃ kept rest, (readSource { rules with strict := false } stream).lines = kept ++ rest ∧
      List.Forall₂ Line.StrictForm kept (readSource { rules with strict := true } stream).lines) ∧
    ((readSource { rules with strict := true } stream).stop = none →
      (readSource { rules with strict := false } stream).stop = none ∧
      (readSource { rules with strict := false } stream).lines.length =
        (readSource { rules with strict := true } stream).lines.length) ∧
    (∀ stop ∈ (readSource { rules with strict := false } stream).stop,
      ∃ earlier ∈ (readSource { rules with strict := true } stream).stop,
        earlier.number ≤ stop.number) ∧
    ∀ stop ∈ (readSource { rules with strict := true } stream).stop,
      stop ∈ (readSource { rules with strict := false } stream).stop ∨
        ∃ violation, stop.cause = .line (.statement violation) := by
  obtain ⟨hlines, haccepted, hstops, hcauses⟩ :=
    restricts_readLines rules stream.failure 1 0 stream.lines
  exact ⟨hlines, haccepted, hstops, hcauses⟩

/-- A name and a text, and a line that only strict reading refuses. -/
example :
    readSource { strict := true } { bytes := utf8 "include lib\ninclude \"lib\"\ninit 1\n" } =
      ⟨[⟨0, 1, inclusionAsText (utf8 "lib")⟩, ⟨0, 2, inclusionAsText (utf8 "lib")⟩],
        some ⟨3, .line (.statement .tooManyWords)⟩⟩ := by
  decide +kernel

end LineScript
