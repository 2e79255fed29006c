import LineScript.Source
import Mathlib.Data.List.Chain
import Mathlib.Data.List.DropRight

/-!
The scopes of the lines of a source. Reading lets a line be one deeper than the line before it,
whether that line has words or not, and then keeps the lines with words. So the lines that reading
accepts go down one level at a time, but lines without words carry the scope on: the kept lines go
down one level at a time exactly when no kept line after such a gap is more than one deeper than
the kept line before the gap.
-/

set_option autoImplicit false
set_option relaxedAutoImplicit false

namespace LineScript

/-- Whether a line is kept. -/
def Line.hasWords (line : Line) : Bool :=
  !line.words.isEmpty

/-- The first line is at most one deeper than `scope`, and each other line at most one deeper than
the line before it. -/
def StepsFrom (scope : Nat) (lines : List Line) : Prop :=
  (∀ first ∈ lines.head?, first.scope ≤ scope + 1) ∧
    lines.IsChain fun outer inner ↦ inner.scope ≤ outer.scope + 1

/-- The scope that some lines lead to, which is that of the last one. -/
def scopeAfter (scope : Nat) : List Line → Nat
  | [] => scope
  | line :: rest => scopeAfter line.scope rest

theorem stepsFrom_nil (scope : Nat) : StepsFrom scope [] :=
  ⟨fun _ hfirst ↦ (Option.not_mem_none _ hfirst).elim, .nil⟩

theorem stepsFrom_cons (scope : Nat) (line : Line) (rest : List Line) :
    StepsFrom scope (line :: rest) ↔ line.scope ≤ scope + 1 ∧ StepsFrom line.scope rest := by
  simp only [StepsFrom, List.isChain_cons, List.head?_cons, Option.mem_some_iff, forall_eq']

theorem stepsFrom_append (scope : Nat) (first second : List Line) :
    StepsFrom scope (first ++ second) ↔
      StepsFrom scope first ∧ StepsFrom (scopeAfter scope first) second := by
  induction first generalizing scope with
  | nil => exact ⟨fun h ↦ ⟨stepsFrom_nil scope, h⟩, fun h ↦ h.2⟩
  | cons line rest ih =>
    rw [List.cons_append, stepsFrom_cons, stepsFrom_cons, ih, scopeAfter, and_assoc]

theorem scopeAfter_append (scope : Nat) (first second : List Line) :
    scopeAfter scope (first ++ second) = scopeAfter (scopeAfter scope first) second := by
  induction first generalizing scope with
  | nil => rfl
  | cons line rest ih => exact ih line.scope

/-! ### Reading -/

/-- The readings of lines, numbered from `number` on. -/
def readings (rules : ReadingRules) (number : Nat) : List Bytes → List LineReading
  | [] => []
  | text :: rest => readLine rules number text :: readings rules (number + 1) rest

/-- The lines, after one of the given scope, before the first that is refused or too deep. -/
def acceptedLines (scope : Nat) : List LineReading → List Line
  | [] => []
  | reading :: rest =>
    if reading.error = none ∧ reading.line.scope ≤ scope + 1 then
      reading.line :: acceptedLines reading.line.scope rest
    else []

/-- Reading accepts no line that is more than one deeper than the line before it. -/
theorem stepsFrom_acceptedLines (scope : Nat) (items : List LineReading) :
    StepsFrom scope (acceptedLines scope items) := by
  induction items generalizing scope with
  | nil => exact stepsFrom_nil scope
  | cons reading rest ih =>
    rw [acceptedLines]
    split_ifs with hfits
    · exact (stepsFrom_cons scope _ _).mpr ⟨hfits.2, ih reading.line.scope⟩
    · exact stepsFrom_nil scope

theorem lines_cons (line : Line) (source : Source) :
    (source.cons line).lines = [line].filter Line.hasWords ++ source.lines := by
  cases line with
  | mk scope number words => cases words <;> rfl

/-- Reading keeps the accepted lines that have words. -/
theorem lines_readLines (rules : ReadingRules) (failure : Option StreamFailure) (number scope : Nat)
    (texts : List Bytes) :
    (readLines rules failure number scope texts).lines =
      (acceptedLines scope (readings rules number texts)).filter Line.hasWords := by
  induction texts generalizing number scope with
  | nil => rfl
  | cons text rest ih =>
    rw [readLines, readings, acceptedLines]
    cases herror : (readLine rules number text).error with
    | some error => simp
    | none =>
      by_cases hdeep : scope + 1 < (readLine rules number text).line.scope
      · simp [hdeep]
      · rw [if_neg hdeep, if_pos ⟨rfl, Nat.not_lt.mp hdeep⟩, lines_cons, ih,
          ← List.filter_append, List.singleton_append]

/-! ### Gaps -/

/-- Lines without words between lines with words: the line after the gap is at most one deeper than
the line before it, where before all lines the scope is zero. -/
def GapsClose (lines : List Line) : Prop :=
  ∀ before gap line after, lines = before ++ gap ++ line :: after →
    (∀ outer ∈ before.getLast?, outer.hasWords = true) →
    gap ≠ [] → (∀ blank ∈ gap, blank.hasWords = false) →
    line.hasWords = true → line.scope ≤ scopeAfter 0 before + 1

theorem filter_gap {gap : List Line} (h : ∀ blank ∈ gap, blank.hasWords = false) :
    gap.filter Line.hasWords = [] := by
  rw [List.filter_eq_nil_iff]
  intro blank hblank
  rw [h blank hblank]
  exact Bool.false_ne_true

/-- Dropping lines before a kept one does not change where the kept one leads to. -/
theorem scopeAfter_filter {lines : List Line}
    (h : ∀ last ∈ lines.getLast?, last.hasWords = true) (scope : Nat) :
    scopeAfter scope (lines.filter Line.hasWords) = scopeAfter scope lines := by
  induction lines using List.reverseRecOn with
  | nil => rfl
  | append_singleton before last _ =>
    have hlast : last.hasWords = true := h last (by simp)
    rw [List.filter_append, List.filter_singleton, hlast, scopeAfter_append, scopeAfter_append]
    rfl

/-- Lines end in a gap, which may be empty, after a line with words if there is one. -/
theorem exists_gap (lines : List Line) :
    ∃ before gap, lines = before ++ gap ∧
      (∀ outer ∈ before.getLast?, outer.hasWords = true) ∧
      ∀ blank ∈ gap, blank.hasWords = false := by
  induction lines using List.reverseRecOn with
  | nil => exact ⟨[], [], rfl, by simp, by simp⟩
  | append_singleton lines line ih =>
    cases hwords : line.hasWords with
    | true => exact ⟨lines ++ [line], [], by simp, by simpa using hwords, by simp⟩
    | false =>
      obtain ⟨before, gap, rfl, hbefore, hgap⟩ := ih
      refine ⟨before, gap ++ [line], by simp, hbefore, ?_⟩
      rw [List.forall_mem_append]
      exact ⟨hgap, by simpa using hwords⟩

theorem GapsClose.of_append {first second : List Line} (h : GapsClose (first ++ second)) :
    GapsClose first := by
  intro before gap line after hlines
  refine h before gap line (after ++ second) ?_
  rw [hlines, List.append_assoc, List.cons_append]

/-- A kept line is at most one deeper than what is kept before it: either it follows a kept line or
it ends a gap. -/
theorem scope_le_of_gapsClose {lines : List Line} {line : Line}
    (hsteps : StepsFrom 0 (lines ++ [line])) (hgaps : GapsClose (lines ++ [line]))
    (hwords : line.hasWords = true) :
    line.scope ≤ scopeAfter 0 (lines.filter Line.hasWords) + 1 := by
  obtain ⟨before, gap, rfl, hbefore, hgap⟩ := exists_gap lines
  rw [List.filter_append, filter_gap hgap, List.append_nil, scopeAfter_filter hbefore]
  by_cases hempty : gap = []
  · subst hempty
    rw [List.append_nil, stepsFrom_append] at hsteps
    exact ((stepsFrom_cons _ line []).mp hsteps.2).1
  · exact hgaps before gap line [] rfl hbefore hempty hgap hwords

theorem stepsFrom_filter_iff {lines : List Line} (h : StepsFrom 0 lines) :
    StepsFrom 0 (lines.filter Line.hasWords) ↔ GapsClose lines := by
  constructor
  · rintro hkept before gap line after rfl hbefore - hgap hwords
    rw [List.filter_append, List.filter_append, filter_gap hgap, List.append_nil,
      List.filter_cons_of_pos hwords, stepsFrom_append, scopeAfter_filter hbefore] at hkept
    exact ((stepsFrom_cons _ line _).mp hkept.2).1
  · intro hgaps
    -- From the front on, so that a line is compared with all that is kept before it.
    induction lines using List.reverseRecOn with
    | nil => exact stepsFrom_nil 0
    | append_singleton lines line ih =>
      have hrest := ih ((stepsFrom_append 0 _ _).mp h).1 hgaps.of_append
      rw [List.filter_append, stepsFrom_append]
      refine ⟨hrest, ?_⟩
      by_cases hwords : line.hasWords = true
      · rw [List.filter_cons_of_pos hwords]
        exact (stepsFrom_cons _ line []).mpr
          ⟨scope_le_of_gapsClose h hgaps hwords, stepsFrom_nil _⟩
      · rw [List.filter_cons_of_neg hwords]
        exact stepsFrom_nil _

/-- The lines that reading accepts step down one by one. The kept ones are those with words, and
they step down one by one exactly when the gaps between them close. -/
theorem stepsFrom_lines_iff (rules : ReadingRules) (stream : ByteStream) :
    StepsFrom 0 (acceptedLines 0 (readings rules 1 stream.lines)) ∧
      (readSource rules stream).lines =
        (acceptedLines 0 (readings rules 1 stream.lines)).filter Line.hasWords ∧
      (StepsFrom 0 (readSource rules stream).lines ↔
        GapsClose (acceptedLines 0 (readings rules 1 stream.lines))) := by
  have hsteps := stepsFrom_acceptedLines 0 (readings rules 1 stream.lines)
  have hlines : (readSource rules stream).lines = _ :=
    lines_readLines rules stream.failure 1 0 stream.lines
  refine ⟨hsteps, hlines, ?_⟩
  rw [hlines]
  exact stepsFrom_filter_iff hsteps

/-- A line of one tab lets the line after it be two deeper than the kept line before it. -/
theorem not_stepsFrom_tab_line :
    ¬ StepsFrom 0 (readSource {} { bytes := utf8 "init\n\t\n\t\tbreak\n" }).lines := by
  have hlines : (readSource {} { bytes := utf8 "init\n\t\n\t\tbreak\n" }).lines =
      [⟨0, 1, [⟨.name, utf8 "init"⟩]⟩, ⟨2, 3, [⟨.name, utf8 "break"⟩]⟩] := by
    decide +kernel
  rw [hlines, stepsFrom_cons, stepsFrom_cons]
  rintro ⟨-, hdeep, -⟩
  exact absurd hdeep (by decide)

end LineScript
