import LineScript.Casebook.Case
import Mathlib.Data.List.Forall2
import Mathlib.Data.List.Induction

/-!
The chapters of a document. Its blocks are divided at the headings that start test cases into a
preamble and chapters. A chapter makes a test case when the languages of its fences are known, one
of them is of input and at least one is of what is expected. The case that is being read after some
blocks is told by the chapter they end in: by its first input and all its expectations.
-/

set_option autoImplicit false
set_option relaxedAutoImplicit false

namespace LineScript.Casebook

open Bytes

/-! ### Chapters -/

namespace Block

/-- Whether a block is a heading that starts a test case. -/
def isTest : Block → Bool
  | .heading _ text => (utf8 "Test: ").isPrefixOf text
  | .fence .. => false

/-- The language of a fence; a heading has none. -/
def language : Block → Bytes
  | .heading .. => []
  | .fence _ language _ => language

/-- The kind and the content of a fence of input. -/
def input? : Block → Option (InputKind × Bytes)
  | .heading .. => none
  | .fence _ language content =>
    (InputKind.ofLanguage? language).map fun kind ↦ (kind, content)

/-- The kind and the content of a fence of what is expected. -/
def assertion? : Block → Option (AssertionKind × Bytes)
  | .heading .. => none
  | .fence _ language content =>
    (AssertionKind.ofLanguage? language).map fun kind ↦ (kind, content)

/-- Whether a block matters to extraction: it starts a test case or has a language. -/
def counts (block : Block) : Bool :=
  block.isTest || !block.language.isEmpty

end Block

/-- A heading that starts a test case, with blocks that follow it. -/
structure Chapter where
  name : Bytes
  line : Nat
  body : List Block
  deriving DecidableEq, Repr

namespace Chapter

/-- The heading of a chapter and the blocks after it. -/
def blocks (chapter : Chapter) : List Block :=
  .heading chapter.line (utf8 "Test: " ++ chapter.name) :: chapter.body

/-- The fences of input in a chapter, in order. -/
def inputs (chapter : Chapter) : List (InputKind × Bytes) :=
  chapter.body.filterMap Block.input?

/-- The fences of what is expected in a chapter, in order. -/
def assertions (chapter : Chapter) : List (AssertionKind × Bytes) :=
  chapter.body.filterMap Block.assertion?

end Chapter

/-- `preamble` and `chapters` make up `blocks`, and only chapters start with headings of test
cases. -/
structure IsDivision (blocks preamble : List Block) (chapters : List Chapter) : Prop where
  blocks_eq : blocks = preamble ++ chapters.flatMap Chapter.blocks
  preamble : ∀ block ∈ preamble, block.isTest = false
  bodies : ∀ chapter ∈ chapters, ∀ block ∈ chapter.body, block.isTest = false

/-- The language of an input or of an expectation. -/
def IsKnown (language : Bytes) : Prop :=
  (∃ kind : InputKind, kind.language = language) ∨
    ∃ kind : AssertionKind, kind.language = language

/-- A chapter that makes a test case. -/
structure Chapter.IsComplete (chapter : Chapter) : Prop where
  known : ∀ block ∈ chapter.body, block.language ≠ [] → IsKnown block.language
  input : chapter.inputs.length = 1
  assertions : chapter.assertions ≠ []

/-- The input is the content of a fence, less one newline if it ends in one. -/
def IsInputOf (content input : Bytes) : Prop :=
  content = input ++ [0x0A] ∨ content = input ∧ input.getLast? ≠ some 0x0A

/-- The expectation has the kind of a fence and its content, less all newlines that it ends in. -/
def IsAssertionOf (fence assertion : AssertionKind × Bytes) : Prop :=
  assertion.1 = fence.1 ∧
    ∃ count, fence.2 = assertion.2 ++ List.replicate count 0x0A ∧
      assertion.2.getLast? ≠ some 0x0A

/-- A case has the name and the line of a chapter, the input of its only fence of input, and the
expectations of all its fences of what is expected. -/
structure Chapter.Gives (chapter : Chapter) (testCase : Case) : Prop where
  name : testCase.name = chapter.name
  line : testCase.line = chapter.line
  input : ∃ content, chapter.inputs = [(testCase.inputKind, content)] ∧
    IsInputOf content testCase.input
  assertions : List.Forall₂ IsAssertionOf chapter.assertions testCase.assertions

/-! ### Contents -/

theorem isInputOf_iff (content input : Bytes) :
    IsInputOf content input ↔ input = withoutNewline content := by
  constructor
  · rintro (rfl | ⟨rfl, hlast⟩)
    · rw [withoutNewline, List.getLast?_concat, if_pos rfl, List.dropLast_concat]
    · rw [withoutNewline, if_neg hlast]
  · rintro rfl
    unfold withoutNewline
    split_ifs with hlast
    · exact Or.inl (List.dropLast_append_getLast? _ hlast).symm
    · exact Or.inr ⟨rfl, hlast⟩

theorem withoutNewlines_concat_newline (content : Bytes) :
    withoutNewlines (content ++ [0x0A]) = withoutNewlines content := by
  simp [withoutNewlines]

theorem withoutNewlines_of_getLast? {text : Bytes} (h : text.getLast? ≠ some 0x0A) :
    withoutNewlines text = text := by
  induction text using List.reverseRecOn with
  | nil => rfl
  | append_singleton text byte ih =>
    have hbyte : byte ≠ 0x0A := by simpa using h
    simp [withoutNewlines, hbyte]

/-- All newlines at the end of a content are left out, and nothing else. -/
theorem withoutNewlines_eq_iff (content text : Bytes) :
    text = withoutNewlines content ↔
      ∃ count, content = text ++ List.replicate count 0x0A ∧ text.getLast? ≠ some 0x0A := by
  constructor
  · rintro rfl
    induction content using List.reverseRecOn with
    | nil => exact ⟨0, rfl, by decide⟩
    | append_singleton content byte ih =>
      by_cases hbyte : byte = 0x0A
      · obtain ⟨count, hcontent, hlast⟩ := ih
        rw [hbyte, withoutNewlines_concat_newline]
        refine ⟨count + 1, ?_, hlast⟩
        rw [List.replicate_succ', ← List.append_assoc, ← hcontent]
      · have hlast : (content ++ [byte]).getLast? ≠ some 0x0A := by simpa using hbyte
        rw [withoutNewlines_of_getLast? hlast]
        exact ⟨0, (List.append_nil _).symm, hlast⟩
  · rintro ⟨count, rfl, hlast⟩
    induction count with
    | zero => rw [List.replicate_zero, List.append_nil, withoutNewlines_of_getLast? hlast]
    | succ count ih =>
      rw [List.replicate_succ', ← List.append_assoc, withoutNewlines_concat_newline, ← ih]

/-- What a case makes of a fence of input. -/
def trimmedInput (fence : InputKind × Bytes) : InputKind × Bytes :=
  (fence.1, withoutNewline fence.2)

/-- What a case makes of a fence of what is expected. -/
def trimmedAssertion (fence : AssertionKind × Bytes) : AssertionKind × Bytes :=
  (fence.1, withoutNewlines fence.2)

theorem isAssertionOf_iff (fence assertion : AssertionKind × Bytes) :
    IsAssertionOf fence assertion ↔ trimmedAssertion fence = assertion := by
  rw [IsAssertionOf, ← withoutNewlines_eq_iff, trimmedAssertion, Prod.ext_iff, eq_comm,
    eq_comm (a := assertion.2)]

theorem forall₂_isAssertionOf_iff (fences assertions : List (AssertionKind × Bytes)) :
    List.Forall₂ IsAssertionOf fences assertions ↔ fences.map trimmedAssertion = assertions := by
  have hall : IsAssertionOf = fun fence assertion ↦ trimmedAssertion fence = assertion :=
    funext₂ fun fence assertion ↦ propext (isAssertionOf_iff fence assertion)
  rw [hall, ← List.forall₂_map_left_iff, List.forall₂_eq_eq_eq]

/-! ### Languages and headings -/

theorem testName?_eq_some_iff (heading name : Bytes) :
    testName? heading = some name ↔ heading = utf8 "Test: " ++ name := by
  rw [testName?, List.isPrefixOf?_eq_some_iff_append_eq, eq_comm]

theorem InputKind.ofLanguage?_eq_some_iff (language : Bytes) (kind : InputKind) :
    InputKind.ofLanguage? language = some kind ↔ kind.language = language := by
  constructor
  · intro h
    unfold InputKind.ofLanguage? at h
    simpa using List.find?_some h
  · rintro rfl
    cases kind <;> decide

theorem AssertionKind.ofLanguage?_eq_some_iff (language : Bytes) (kind : AssertionKind) :
    AssertionKind.ofLanguage? language = some kind ↔ kind.language = language := by
  constructor
  · intro h
    unfold AssertionKind.ofLanguage? at h
    simpa using List.find?_some h
  · rintro rfl
    cases kind <;> decide

/-- No language is that of an input and of an expectation. -/
theorem InputKind.ofLanguage?_assertion (kind : AssertionKind) :
    InputKind.ofLanguage? kind.language = none := by
  cases kind <;> decide

theorem AssertionKind.ofLanguage?_input (kind : InputKind) :
    AssertionKind.ofLanguage? kind.language = none := by
  cases kind <;> decide

theorem Block.input?_input (kind : InputKind) (line : Nat) (content : Bytes) :
    (Block.fence line kind.language content).input? = some (kind, content) := by
  rw [input?, (InputKind.ofLanguage?_eq_some_iff _ _).mpr rfl, Option.map_some]

theorem Block.input?_assertion (kind : AssertionKind) (line : Nat) (content : Bytes) :
    (Block.fence line kind.language content).input? = none := by
  rw [input?, InputKind.ofLanguage?_assertion, Option.map_none]

theorem ofLanguage?_of_not_isKnown {language : Bytes} (h : ¬ IsKnown language) :
    InputKind.ofLanguage? language = none ∧ AssertionKind.ofLanguage? language = none := by
  simp only [Option.eq_none_iff_forall_ne_some, ne_eq, InputKind.ofLanguage?_eq_some_iff,
    AssertionKind.ofLanguage?_eq_some_iff]
  exact ⟨fun kind hkind ↦ h (Or.inl ⟨kind, hkind⟩), fun kind hkind ↦ h (Or.inr ⟨kind, hkind⟩)⟩

theorem Block.parts_of_language {block : Block} (h : block.language = []) :
    block.input? = none ∧ block.assertion? = none := by
  cases block with
  | heading line text => exact ⟨rfl, rfl⟩
  | fence line language content =>
    obtain rfl : language = [] := h
    exact ⟨rfl, rfl⟩

theorem exists_of_isTest {block : Block} (h : block.isTest = true) :
    ∃ line text name, block = .heading line text ∧ testName? text = some name := by
  cases block with
  | heading line text =>
    obtain ⟨name, hname⟩ := List.isPrefixOf_iff_prefix.mp h
    exact ⟨line, text, name, rfl, (testName?_eq_some_iff _ _).mpr hname.symm⟩
  | fence line language content => cases h

theorem testName?_eq_none {line : Nat} {text : Bytes}
    (h : (Block.heading line text).isTest = false) : testName? text = none := by
  rw [Option.eq_none_iff_forall_ne_some]
  intro name hname
  have hprefix : utf8 "Test: " <+: text := ⟨name, ((testName?_eq_some_iff _ _).mp hname).symm⟩
  exact Bool.false_ne_true (h.symm.trans (List.isPrefixOf_iff_prefix.mpr hprefix))

theorem exists_isDivision (blocks : List Block) :
    ∃ preamble chapters, IsDivision blocks preamble chapters := by
  induction blocks with
  | nil => exact ⟨[], [], rfl, List.forall_mem_nil _, List.forall_mem_nil _⟩
  | cons block rest ih =>
    obtain ⟨preamble, chapters, hrest, hpreamble, hbodies⟩ := ih
    by_cases htest : block.isTest = true
    · -- What stood before the first heading is now the body of a chapter.
      obtain ⟨line, text, name, rfl, hname⟩ := exists_of_isTest htest
      refine ⟨[], ⟨name, line, preamble⟩ :: chapters, ?_, List.forall_mem_nil _,
        List.forall_mem_cons.mpr ⟨hpreamble, hbodies⟩⟩
      rw [hrest, (testName?_eq_some_iff _ _).mp hname]
      rfl
    · rw [Bool.not_eq_true] at htest
      exact ⟨block :: preamble, chapters, congrArg (block :: ·) hrest,
        List.forall_mem_cons.mpr ⟨htest, hpreamble⟩, hbodies⟩

/-! ### Drafts -/

namespace Chapter

/-- The chapter with one more block. -/
def add (chapter : Chapter) (block : Block) : Chapter :=
  { chapter with body := chapter.body ++ [block] }

/-- The chapter with more blocks. -/
def extend (chapter : Chapter) (body : List Block) : Chapter :=
  { chapter with body := chapter.body ++ body }

/-- The case being read after a chapter. -/
def draft (chapter : Chapter) : Draft where
  name := chapter.name
  line := chapter.line
  input := chapter.inputs.head?.map trimmedInput
  assertions := chapter.assertions.map trimmedAssertion

variable {chapter : Chapter}

theorem inputs_add (chapter : Chapter) (block : Block) :
    (chapter.add block).inputs = chapter.inputs ++ block.input?.toList := by
  simp only [inputs, add, List.filterMap_append, List.filterMap_cons, List.filterMap_nil]
  cases block.input? <;> rfl

theorem extend_cons (chapter : Chapter) (block : Block) (body : List Block) :
    chapter.extend (block :: body) = (chapter.add block).extend body := by
  simp [extend, add]

theorem inputs_extend (chapter : Chapter) (body : List Block) :
    (chapter.extend body).inputs = chapter.inputs ++ body.filterMap Block.input? :=
  List.filterMap_append

theorem assertions_add (chapter : Chapter) (block : Block) :
    (chapter.add block).assertions = chapter.assertions ++ block.assertion?.toList := by
  simp only [assertions, add, List.filterMap_append, List.filterMap_cons, List.filterMap_nil]
  cases block.assertion? <;> rfl

theorem draft_add (chapter : Chapter) (block : Block) :
    (chapter.add block).draft =
      ⟨chapter.name, chapter.line, (chapter.inputs ++ block.input?.toList).head?.map trimmedInput,
        (chapter.assertions ++ block.assertion?.toList).map trimmedAssertion⟩ := by
  rw [draft, inputs_add, assertions_add]
  rfl

/-- A block without a language adds nothing to the case. -/
theorem draft_add_of_language {block : Block} (h : block.language = []) :
    (chapter.add block).draft = chapter.draft := by
  obtain ⟨hinput, hassertion⟩ := Block.parts_of_language h
  rw [draft_add, hinput, hassertion]
  simp [draft]

theorem addFence_input (h : chapter.inputs = []) (kind : InputKind) (line : Nat) (content : Bytes) :
    chapter.draft.addFence line kind.language content =
      .ok (chapter.add (.fence line kind.language content)).draft := by
  have hinput : InputKind.ofLanguage? kind.language = some kind :=
    (InputKind.ofLanguage?_eq_some_iff _ _).mpr rfl
  have hassertion := AssertionKind.ofLanguage?_input kind
  rw [draft_add]
  simp [Draft.addFence, draft, Block.input?, Block.assertion?, hinput, hassertion, h, trimmedInput]

theorem addFence_secondInput (h : chapter.inputs ≠ []) (kind : InputKind) (line : Nat)
    (content : Bytes) :
    chapter.draft.addFence line kind.language content =
      .error (.secondInput line chapter.name) := by
  have hinput : InputKind.ofLanguage? kind.language = some kind :=
    (InputKind.ofLanguage?_eq_some_iff _ _).mpr rfl
  simp [Draft.addFence, draft, hinput, List.isSome_head?, h]

theorem addFence_assertion (kind : AssertionKind) (line : Nat) (content : Bytes) :
    chapter.draft.addFence line kind.language content =
      .ok (chapter.add (.fence line kind.language content)).draft := by
  have hassertion : AssertionKind.ofLanguage? kind.language = some kind :=
    (AssertionKind.ofLanguage?_eq_some_iff _ _).mpr rfl
  have hinput := InputKind.ofLanguage?_assertion kind
  rw [draft_add]
  simp [Draft.addFence, draft, Block.input?, Block.assertion?, hinput, hassertion,
    trimmedAssertion]

theorem addFence_unknown {language : Bytes} (h : ¬ IsKnown language) (line : Nat)
    (content : Bytes) :
    chapter.draft.addFence line language content =
      .error (.unknownLanguage line language chapter.name) := by
  obtain ⟨hinput, hassertion⟩ := ofLanguage?_of_not_isKnown h
  simp [Draft.addFence, hinput, hassertion, draft]

theorem length_inputs_add_input (kind : InputKind) (line : Nat) (content : Bytes) :
    (chapter.add (.fence line kind.language content)).inputs.length =
      chapter.inputs.length + 1 := by
  rw [inputs_add, Block.input?_input, List.length_append]
  rfl

/-- A fence is added if its language is known and it is not a second input. -/
theorem addFence_of_fits {line : Nat} {language content : Bytes} (hknown : IsKnown language)
    (hone : (chapter.add (.fence line language content)).inputs.length ≤ 1) :
    chapter.draft.addFence line language content =
      .ok (chapter.add (.fence line language content)).draft := by
  rcases hknown with ⟨kind, rfl⟩ | ⟨kind, rfl⟩
  · rw [length_inputs_add_input] at hone
    exact addFence_input (List.length_eq_zero_iff.mp (by omega)) kind line content
  · exact addFence_assertion kind line content

theorem exists_addFence_error {line : Nat} {language content : Bytes}
    (hone : chapter.inputs.length ≤ 1) (h : ¬ (IsKnown language ∧
      (chapter.add (.fence line language content)).inputs.length ≤ 1)) :
    ∃ error, chapter.draft.addFence line language content = .error error := by
  by_cases hknown : IsKnown language
  · have hsecond := fun hlength ↦ h ⟨hknown, hlength⟩
    rcases hknown with ⟨kind, rfl⟩ | ⟨kind, rfl⟩
    · rw [length_inputs_add_input] at hsecond
      have hinput : chapter.inputs ≠ [] := by
        intro hnone
        simp [hnone] at hsecond
      exact ⟨_, addFence_secondInput hinput kind line content⟩
    · rw [inputs_add, Block.input?_assertion] at hsecond
      simp [hone] at hsecond
  · exact ⟨_, addFence_unknown hknown line content⟩

theorem finish_noInput (h : chapter.inputs = []) :
    chapter.draft.finish = .error (.noInput chapter.name) := by
  simp [Draft.finish, draft, h]

theorem finish_noAssertions (hinput : chapter.inputs ≠ []) (h : chapter.assertions = []) :
    chapter.draft.finish = .error (.noAssertions chapter.name) := by
  obtain ⟨input, more, hinputs⟩ := List.exists_cons_of_ne_nil hinput
  simp [Draft.finish, draft, hinputs, h]

theorem finish_complete {input : InputKind × Bytes} {more : List (InputKind × Bytes)}
    (hinputs : chapter.inputs = input :: more) (h : chapter.assertions ≠ []) :
    chapter.draft.finish =
      .ok ⟨chapter.name, chapter.line, input.1, withoutNewline input.2,
        chapter.assertions.map trimmedAssertion⟩ := by
  simp [Draft.finish, draft, hinputs, h, trimmedInput]

/-- A chapter whose fences were all added is finished if and only if it is complete, and then it
gives its case. -/
theorem finish_eq_ok_iff (chapter : Chapter) (testCase : Case) :
    ((∀ block ∈ chapter.body, block.language ≠ [] → IsKnown block.language) ∧
        chapter.inputs.length ≤ 1 ∧ chapter.draft.finish = .ok testCase) ↔
      chapter.IsComplete ∧ chapter.Gives testCase := by
  constructor
  · rintro ⟨hknown, hone, hfinish⟩
    by_cases hinput : chapter.inputs = []
    · rw [finish_noInput hinput] at hfinish
      cases hfinish
    by_cases hassertions : chapter.assertions = []
    · rw [finish_noAssertions hinput hassertions] at hfinish
      cases hfinish
    obtain ⟨input, more, hinputs⟩ := List.exists_cons_of_ne_nil hinput
    obtain rfl : more = [] := by simpa [hinputs] using hone
    rw [finish_complete hinputs hassertions] at hfinish
    cases hfinish
    exact ⟨⟨hknown, by rw [hinputs]; rfl, hassertions⟩, rfl, rfl,
      ⟨input.2, hinputs, (isInputOf_iff _ _).mpr rfl⟩, (forall₂_isAssertionOf_iff _ _).mpr rfl⟩
  · rintro ⟨hcomplete, hname, hline, ⟨content, hinputs, hinput⟩, hassertions⟩
    rw [isInputOf_iff] at hinput
    rw [forall₂_isAssertionOf_iff] at hassertions
    refine ⟨hcomplete.known, Nat.le_of_eq hcomplete.input, ?_⟩
    rw [finish_complete hinputs hcomplete.assertions, ← hname, ← hline, ← hinput, hassertions]

/-- A complete chapter gives a case. -/
theorem IsComplete.exists_gives (h : chapter.IsComplete) :
    ∃ testCase, chapter.Gives testCase := by
  obtain ⟨input, hinputs⟩ := List.length_eq_one_iff.mp h.input
  exact ⟨⟨chapter.name, chapter.line, input.1, withoutNewline input.2,
      chapter.assertions.map trimmedAssertion⟩, rfl, rfl,
    ⟨input.2, hinputs, (isInputOf_iff _ _).mpr rfl⟩, (forall₂_isAssertionOf_iff _ _).mpr rfl⟩

end Chapter

theorem exists_forall₂_gives {chapters : List Chapter}
    (h : ∀ chapter ∈ chapters, chapter.IsComplete) :
    ∃ result, List.Forall₂ Chapter.Gives chapters result := by
  induction chapters with
  | nil => exact ⟨[], .nil⟩
  | cons chapter chapters ih =>
    rw [List.forall_mem_cons] at h
    obtain ⟨first, hfirst⟩ := h.1.exists_gives
    obtain ⟨more, hmore⟩ := ih h.2
    exact ⟨first :: more, .cons hfirst hmore⟩

/-! ### The open chapter -/

/-- The last heading of a test case among some blocks and what follows it make up a chapter. -/
def EndsIn (blocks : List Block) (chapter : Chapter) : Prop :=
  ∃ earlier, blocks = earlier ++ chapter.blocks ∧ ∀ block ∈ chapter.body, block.isTest = false

/-- The open chapter after one more block: a new one, or the one before with the block. -/
def Chapter.after? (chapter? : Option Chapter) (block : Block) : Option Chapter :=
  match block with
  | .heading line text =>
    match testName? text with
    | some name => some ⟨name, line, []⟩
    | none => chapter?.map (·.add block)
  | .fence .. => chapter?.map (·.add block)

/-- The chapter that is open after some blocks. -/
def openChapter? (blocks : List Block) : Option Chapter :=
  blocks.foldl Chapter.after? none

theorem openChapter?_concat (blocks : List Block) (block : Block) :
    openChapter? (blocks ++ [block]) = Chapter.after? (openChapter? blocks) block :=
  List.foldl_concat _ _ _ _

theorem Chapter.after?_of_not_isTest {block : Block} (h : block.isTest = false)
    (chapter? : Option Chapter) : after? chapter? block = chapter?.map (·.add block) := by
  cases block with
  | heading line text =>
    rw [after?, testName?_eq_none h]
  | fence line language content => rfl

theorem Chapter.after?_of_testName? {line : Nat} {text name : Bytes}
    (h : testName? text = some name) (chapter? : Option Chapter) :
    after? chapter? (.heading line text) = some ⟨name, line, []⟩ := by
  rw [after?, h]

theorem openChapter?_eq_none_iff (blocks : List Block) :
    openChapter? blocks = none ↔ ∀ block ∈ blocks, block.isTest = false := by
  induction blocks using List.reverseRecOn with
  | nil => simp [openChapter?]
  | append_singleton blocks block ih =>
    rw [openChapter?_concat, List.forall_mem_append, List.forall_mem_singleton, ← ih]
    by_cases htest : block.isTest = true
    · obtain ⟨line, text, name, rfl, hname⟩ := exists_of_isTest htest
      simp [Chapter.after?_of_testName? hname, htest]
    · rw [Bool.not_eq_true] at htest
      simp [Chapter.after?_of_not_isTest htest, htest]

theorem foldl_after?_body {body : List Block} (h : ∀ block ∈ body, block.isTest = false)
    (chapter : Chapter) :
    body.foldl Chapter.after? (some chapter) = some (chapter.extend body) := by
  induction body generalizing chapter with
  | nil => simp [Chapter.extend]
  | cons block body ih =>
    rw [List.forall_mem_cons] at h
    rw [List.foldl_cons, Chapter.after?_of_not_isTest h.1, Option.map_some, ih h.2,
      Chapter.extend_cons]

/-- The open chapter is the last heading of a test case with what follows it. -/
theorem openChapter?_eq_some_iff (blocks : List Block) (chapter : Chapter) :
    openChapter? blocks = some chapter ↔ EndsIn blocks chapter := by
  constructor
  · intro h
    induction blocks using List.reverseRecOn generalizing chapter with
    | nil => cases h
    | append_singleton blocks block ih =>
      rw [openChapter?_concat] at h
      by_cases htest : block.isTest = true
      · obtain ⟨line, text, name, rfl, hname⟩ := exists_of_isTest htest
        rw [Chapter.after?_of_testName? hname] at h
        cases h
        rw [(testName?_eq_some_iff _ _).mp hname]
        exact ⟨blocks, rfl, List.forall_mem_nil _⟩
      · rw [Bool.not_eq_true] at htest
        rw [Chapter.after?_of_not_isTest htest] at h
        obtain ⟨before, hbefore, rfl⟩ := Option.map_eq_some_iff.mp h
        obtain ⟨earlier, rfl, hbody⟩ := ih before hbefore
        refine ⟨earlier, List.append_assoc _ _ _, ?_⟩
        exact List.forall_mem_append.mpr ⟨hbody, List.forall_mem_singleton.mpr htest⟩
  · rintro ⟨earlier, rfl, hbody⟩
    have hname := (testName?_eq_some_iff (utf8 "Test: " ++ chapter.name) chapter.name).mpr rfl
    rw [openChapter?, List.foldl_append, Chapter.blocks, List.foldl_cons,
      Chapter.after?_of_testName? hname, foldl_after?_body hbody]
    rfl

end LineScript.Casebook
