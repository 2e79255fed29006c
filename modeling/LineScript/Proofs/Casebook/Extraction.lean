import LineScript.Proofs.Casebook.Chapters

/-!
The cases of a document. Extraction succeeds exactly when the preamble has no fence with a language
and every chapter is complete; then each chapter gives its case. Otherwise the first violation in
the order of the document is reported, where a chapter that lacks something violates the rules at
the heading after it or at the end. What neither starts a test case nor has a language does not
count.
-/

set_option autoImplicit false
set_option relaxedAutoImplicit false

namespace LineScript.Casebook

open Bytes

/-! ### Violations -/

/-- What is wrong with the block that follows some blocks, or with the end of the document if none
does. -/
inductive Violates (before : List Block) : Option Block → CaseError → Prop
  | outside {line : Nat} {language content : Bytes} (hnone : ∀ block ∈ before, block.isTest = false)
      (hlanguage : language ≠ []) :
      Violates before (some (.fence line language content)) (.outside line language)
  | secondInput {chapter : Chapter} {kind : InputKind} {line : Nat} {content : Bytes}
      (hchapter : EndsIn before chapter) (hinput : chapter.inputs ≠ []) :
      Violates before (some (.fence line kind.language content)) (.secondInput line chapter.name)
  | unknownLanguage {chapter : Chapter} {line : Nat} {language content : Bytes}
      (hchapter : EndsIn before chapter) (hlanguage : language ≠ [])
      (hunknown : ¬ IsKnown language) :
      Violates before (some (.fence line language content))
        (.unknownLanguage line language chapter.name)
  | noInput {chapter : Chapter} {next : Option Block} (hchapter : EndsIn before chapter)
      (hnext : ∀ block ∈ next, block.isTest = true) (hinput : chapter.inputs = []) :
      Violates before next (.noInput chapter.name)
  | noAssertions {chapter : Chapter} {next : Option Block} (hchapter : EndsIn before chapter)
      (hnext : ∀ block ∈ next, block.isTest = true) (hinput : chapter.inputs ≠ [])
      (hassertions : chapter.assertions = []) :
      Violates before next (.noAssertions chapter.name)

/-- After `before`, the first of the blocks `rest` that is wrong, or the end after them, is wrong in
the given way. -/
def ViolatesFirst (before rest : List Block) (error : CaseError) : Prop :=
  ∃ index ≤ rest.length, Violates (before ++ rest.take index) rest[index]? error ∧
    ∀ earlier < index, ∀ other, ¬ Violates (before ++ rest.take earlier) rest[earlier]? other

/-! ### Steps -/

section Steps

variable {block : Block} {line : Nat} {text name language content : Bytes}

/-- A block that neither starts a test case nor has a language is passed over. -/
theorem casesFrom_of_not_counts (h : block.counts = false) (draft : Option Draft)
    (rest : List Block) : casesFrom draft (block :: rest) = casesFrom draft rest := by
  rw [Block.counts, Bool.or_eq_false_iff] at h
  cases block with
  | heading line text =>
    cases draft <;> rw [casesFrom, testName?_eq_none h.1]
  | fence line language content =>
    have hlanguage : language.isEmpty = true := by simpa [Block.language] using h.2
    cases draft <;> rw [casesFrom, if_pos hlanguage]

theorem casesFrom_first_test (h : testName? text = some name) (rest : List Block) :
    casesFrom none (.heading line text :: rest) =
      casesFrom (some (Chapter.mk name line []).draft) rest := by
  rw [casesFrom, h]
  rfl

theorem casesFrom_next_test (h : testName? text = some name) (draft : Draft) (rest : List Block) :
    casesFrom (some draft) (.heading line text :: rest) =
      draft.finish.bind fun first ↦
        (casesFrom (some (Chapter.mk name line []).draft) rest).map (first :: ·) := by
  rw [casesFrom, h]
  rfl

theorem casesFrom_outside (h : language ≠ []) (rest : List Block) :
    casesFrom none (.fence line language content :: rest) = .error (.outside line language) := by
  rw [casesFrom, if_neg (by simpa using h)]

theorem casesFrom_fence (h : language ≠ []) (draft : Draft) (rest : List Block) :
    casesFrom (some draft) (.fence line language content :: rest) =
      (draft.addFence line language content).bind fun next ↦ casesFrom (some next) rest := by
  rw [casesFrom, if_neg (by simpa using h)]
  rfl

theorem casesFrom_end (draft : Draft) :
    casesFrom (some draft) [] = draft.finish.map fun last ↦ [last] := by
  rw [casesFrom]
  rfl

end Steps

/-! ### Reports -/

section Reports

variable {before : List Block} {block : Block} {error : CaseError}

/-- The draft of the case that is open after some blocks. -/
def openDraft? (blocks : List Block) : Option Draft :=
  (openChapter? blocks).map Chapter.draft

theorem openDraft?_of_endsIn {chapter : Chapter} (h : EndsIn before chapter) :
    openDraft? before = some chapter.draft := by
  rw [openDraft?, (openChapter?_eq_some_iff _ _).mpr h, Option.map_some]

theorem openDraft?_concat_test {line : Nat} {text name : Bytes} (h : testName? text = some name)
    (before : List Block) :
    openDraft? (before ++ [.heading line text]) = some (Chapter.mk name line []).draft := by
  rw [openDraft?, openChapter?_concat, Chapter.after?_of_testName? h, Option.map_some]

/-- A block that violates the rules is reported. -/
theorem casesFrom_of_violates (h : Violates before (some block) error) (rest : List Block) :
    casesFrom (openDraft? before) (block :: rest) = .error error := by
  cases h with
  | outside hnone hlanguage =>
    rw [openDraft?, (openChapter?_eq_none_iff before).mpr hnone]
    exact casesFrom_outside hlanguage rest
  | @secondInput chapter kind line content hchapter hinput =>
    have hlanguage : kind.language ≠ [] := by cases kind <;> decide
    rw [openDraft?_of_endsIn hchapter, casesFrom_fence hlanguage,
      Chapter.addFence_secondInput hinput]
    rfl
  | unknownLanguage hchapter hlanguage hunknown =>
    rw [openDraft?_of_endsIn hchapter, casesFrom_fence hlanguage, Chapter.addFence_unknown hunknown]
    rfl
  | noInput hchapter hnext hinput =>
    obtain ⟨line, text, name, rfl, hname⟩ := exists_of_isTest (hnext block rfl)
    rw [openDraft?_of_endsIn hchapter, casesFrom_next_test hname, Chapter.finish_noInput hinput]
    rfl
  | noAssertions hchapter hnext hinput hassertions =>
    obtain ⟨line, text, name, rfl, hname⟩ := exists_of_isTest (hnext block rfl)
    rw [openDraft?_of_endsIn hchapter, casesFrom_next_test hname,
      Chapter.finish_noAssertions hinput hassertions]
    rfl

/-- A chapter without violations where it ends is finished. -/
theorem exists_finish_of_not_violates {chapter : Chapter} {next : Option Block}
    (hchapter : EndsIn before chapter) (hnext : ∀ block ∈ next, block.isTest = true)
    (h : ∀ error, ¬ Violates before next error) :
    ∃ testCase, chapter.draft.finish = .ok testCase := by
  have hinput : chapter.inputs ≠ [] := fun hnone ↦ h _ (.noInput hchapter hnext hnone)
  have hassertions : chapter.assertions ≠ [] :=
    fun hnone ↦ h _ (.noAssertions hchapter hnext hinput hnone)
  obtain ⟨input, more, hinputs⟩ := List.exists_cons_of_ne_nil hinput
  exact ⟨_, Chapter.finish_complete hinputs hassertions⟩

/-- A fence with a language that violates nothing is added to the open chapter. -/
theorem addFence_of_not_violates {chapter : Chapter} {line : Nat} {language content : Bytes}
    (hchapter : EndsIn before chapter) (hlanguage : language ≠ [])
    (h : ∀ error, ¬ Violates before (some (.fence line language content)) error) :
    chapter.draft.addFence line language content =
      .ok (chapter.add (.fence line language content)).draft := by
  by_cases hknown : IsKnown language
  · rcases hknown with ⟨kind, rfl⟩ | ⟨kind, rfl⟩
    · by_cases hinput : chapter.inputs = []
      · exact Chapter.addFence_input hinput kind line content
      · exact absurd (.secondInput hchapter hinput) (h _)
    · exact Chapter.addFence_assertion kind line content
  · exact absurd (.unknownLanguage hchapter hlanguage hknown) (h _)

theorem map_nil_append (result : Except CaseError (List Case)) :
    result.map ([] ++ ·) = result := by
  cases result <;> rfl

/-- A test heading that violates nothing finishes the case being read, if there is one. -/
theorem exists_casesFrom_of_isTest (htest : block.isTest = true)
    (h : ∀ error, ¬ Violates before (some block) error) (rest : List Block) :
    ∃ finished : List Case, casesFrom (openDraft? before) (block :: rest) =
      (casesFrom (openDraft? (before ++ [block])) rest).map (finished ++ ·) := by
  obtain ⟨line, text, name, rfl, hname⟩ := exists_of_isTest htest
  rw [openDraft?_concat_test hname]
  cases hopen : openChapter? before with
  | none =>
    refine ⟨[], ?_⟩
    rw [openDraft?, hopen, Option.map_none, casesFrom_first_test hname, map_nil_append]
  | some chapter =>
    have hchapter := (openChapter?_eq_some_iff _ _).mp hopen
    obtain ⟨testCase, hfinish⟩ := exists_finish_of_not_violates hchapter
      (fun block hblock ↦ Option.some.inj hblock ▸ htest) h
    refine ⟨[testCase], ?_⟩
    rw [openDraft?, hopen, Option.map_some, casesFrom_next_test hname, hfinish]
    rfl

/-- Another block that violates nothing is added to the case being read. -/
theorem casesFrom_of_not_isTest (htest : block.isTest = false)
    (h : ∀ error, ¬ Violates before (some block) error) (rest : List Block) :
    casesFrom (openDraft? before) (block :: rest) =
      casesFrom (openDraft? (before ++ [block])) rest := by
  rw [openDraft?, openDraft?, openChapter?_concat, Chapter.after?_of_not_isTest htest,
    Option.map_map]
  by_cases hlanguage : block.language = []
  · have hcounts : block.counts = false := by simp [Block.counts, htest, hlanguage]
    rw [casesFrom_of_not_counts hcounts]
    congr 1
    exact Option.map_congr fun chapter _ ↦ (Chapter.draft_add_of_language hlanguage).symm
  cases block with
  | heading line text => exact absurd rfl hlanguage
  | fence line language content =>
    cases hopen : openChapter? before with
    | none =>
      exact absurd (.outside ((openChapter?_eq_none_iff before).mp hopen) hlanguage) (h _)
    | some chapter =>
      have hchapter := (openChapter?_eq_some_iff _ _).mp hopen
      have hfence : language ≠ [] := hlanguage
      rw [Option.map_some, casesFrom_fence hfence, addFence_of_not_violates hchapter hfence h]
      rfl

/-- After a block that violates nothing the rest is read, and some cases are put before those of the
rest. -/
theorem exists_casesFrom_of_not_violates (h : ∀ error, ¬ Violates before (some block) error)
    (rest : List Block) :
    ∃ finished : List Case, casesFrom (openDraft? before) (block :: rest) =
      (casesFrom (openDraft? (before ++ [block])) rest).map (finished ++ ·) := by
  by_cases htest : block.isTest = true
  · exact exists_casesFrom_of_isTest htest h rest
  · exact ⟨[], by rw [casesFrom_of_not_isTest (Bool.not_eq_true _ ▸ htest) h, map_nil_append]⟩

/-- What is reported at the end is what violates the rules there. -/
theorem casesFrom_nil_eq_error_iff (before : List Block) (error : CaseError) :
    casesFrom (openDraft? before) [] = .error error ↔ Violates before none error := by
  have hreport : ∀ other, Violates before none other →
      casesFrom (openDraft? before) [] = .error other := by
    intro other hother
    cases hother with
    | noInput hchapter hnext hinput =>
      rw [openDraft?_of_endsIn hchapter, casesFrom_end, Chapter.finish_noInput hinput]
      rfl
    | noAssertions hchapter hnext hinput hassertions =>
      rw [openDraft?_of_endsIn hchapter, casesFrom_end,
        Chapter.finish_noAssertions hinput hassertions]
      rfl
  refine ⟨fun h ↦ ?_, hreport error⟩
  by_cases hviolates : ∃ other, Violates before none other
  · obtain ⟨other, hother⟩ := hviolates
    rw [hreport other hother] at h
    exact Except.error.inj h ▸ hother
  rw [not_exists] at hviolates
  cases hopen : openChapter? before with
  | none =>
    rw [openDraft?, hopen] at h
    cases h
  | some chapter =>
    have hchapter := (openChapter?_eq_some_iff _ _).mp hopen
    obtain ⟨testCase, hfinish⟩ :=
      exists_finish_of_not_violates hchapter (by rintro block ⟨⟩) hviolates
    rw [openDraft?_of_endsIn hchapter, casesFrom_end, hfinish] at h
    cases h

theorem violatesFirst_nil_iff (before : List Block) (error : CaseError) :
    ViolatesFirst before [] error ↔ Violates before none error := by
  constructor
  · rintro ⟨index, hindex, hviolates, -⟩
    obtain rfl : index = 0 := Nat.le_zero.mp hindex
    simpa using hviolates
  · intro hviolates
    exact ⟨0, Nat.le_refl 0, by simpa using hviolates, fun earlier hearlier ↦ by omega⟩

/-- The first violation is at the next block, or it is the first one after it. -/
theorem violatesFirst_cons_iff (before : List Block) (block : Block) (rest : List Block)
    (error : CaseError) :
    ViolatesFirst before (block :: rest) error ↔ Violates before (some block) error ∨
      (∀ other, ¬ Violates before (some block) other) ∧
        ViolatesFirst (before ++ [block]) rest error := by
  constructor
  · rintro ⟨index, hindex, hviolates, hfirst⟩
    cases index with
    | zero => exact Or.inl (by simpa using hviolates)
    | succ index =>
      refine Or.inr ⟨by simpa using hfirst 0 (Nat.succ_pos index), index, ?_, ?_, ?_⟩
      · simpa using hindex
      · simpa using hviolates
      · intro earlier hearlier
        simpa using hfirst (earlier + 1) (Nat.succ_lt_succ hearlier)
  · rintro (hviolates | ⟨hnone, index, hindex, hviolates, hfirst⟩)
    · exact ⟨0, Nat.zero_le _, by simpa using hviolates, fun earlier hearlier ↦ by omega⟩
    · refine ⟨index + 1, Nat.succ_le_succ hindex, by simpa using hviolates, ?_⟩
      intro earlier hearlier
      cases earlier with
      | zero => simpa using hnone
      | succ earlier => simpa using hfirst earlier (Nat.lt_of_succ_lt_succ hearlier)

/-- What is reported is the first violation. -/
theorem casesFrom_eq_error_iff (before rest : List Block) (error : CaseError) :
    casesFrom (openDraft? before) rest = .error error ↔ ViolatesFirst before rest error := by
  induction rest generalizing before with
  | nil => rw [casesFrom_nil_eq_error_iff, violatesFirst_nil_iff]
  | cons block rest ih =>
    rw [violatesFirst_cons_iff]
    by_cases hviolates : ∃ other, Violates before (some block) other
    · obtain ⟨other, hother⟩ := hviolates
      rw [casesFrom_of_violates hother]
      constructor
      · intro h
        exact Or.inl (Except.error.inj h ▸ hother)
      · rintro (h | ⟨hnone, -⟩)
        · rw [← casesFrom_of_violates hother rest, casesFrom_of_violates h]
        · exact absurd hother (hnone other)
    · rw [not_exists] at hviolates
      obtain ⟨finished, hrest⟩ := exists_casesFrom_of_not_violates hviolates rest
      have hmap : ∀ result : Except CaseError (List Case),
          result.map (finished ++ ·) = .error error ↔ result = .error error := by
        intro result
        cases result <;> simp [Except.map]
      rw [hrest, hmap, ih]
      simp [hviolates]

end Reports

/-! ### Success -/

theorem casesFrom_preamble_eq_ok_iff {preamble : List Block}
    (h : ∀ block ∈ preamble, block.isTest = false) (rest : List Block) (result : List Case) :
    casesFrom none (preamble ++ rest) = .ok result ↔
      (∀ block ∈ preamble, block.language = []) ∧ casesFrom none rest = .ok result := by
  induction preamble with
  | nil => simp
  | cons block preamble ih =>
    rw [List.forall_mem_cons] at h
    rw [List.cons_append, List.forall_mem_cons, and_assoc, ← ih h.2]
    by_cases hlanguage : block.language = []
    · have hcounts : block.counts = false := by simp [Block.counts, h.1, hlanguage]
      rw [casesFrom_of_not_counts hcounts, and_iff_right hlanguage]
    · cases block with
      | heading line text => exact absurd rfl hlanguage
      | fence line language content =>
        have hfence : language ≠ [] := hlanguage
        rw [casesFrom_outside hfence]
        exact iff_of_false (by simp) fun hboth ↦ hlanguage hboth.1

/-- A block is read into the open chapter if its language is known and it is not a second input. -/
theorem casesFrom_block_eq_ok_iff {block : Block} (h : block.isTest = false) {chapter : Chapter}
    (hone : chapter.inputs.length ≤ 1) (rest : List Block) (result : List Case) :
    casesFrom (some chapter.draft) (block :: rest) = .ok result ↔
      (block.language ≠ [] → IsKnown block.language) ∧ (chapter.add block).inputs.length ≤ 1 ∧
        casesFrom (some (chapter.add block).draft) rest = .ok result := by
  by_cases hlanguage : block.language = []
  · have hcounts : block.counts = false := by simp [Block.counts, h, hlanguage]
    have hinputs : (chapter.add block).inputs.length ≤ 1 := by
      have hinput := (Block.parts_of_language hlanguage).1
      simpa [Chapter.inputs_add, hinput] using hone
    rw [casesFrom_of_not_counts hcounts, Chapter.draft_add_of_language hlanguage]
    simp [hlanguage, hinputs]
  cases block with
  | heading line text => exact absurd rfl hlanguage
  | fence line language content =>
    have hfence : language ≠ [] := hlanguage
    rw [casesFrom_fence hfence]
    by_cases hfits : IsKnown language ∧
        (chapter.add (.fence line language content)).inputs.length ≤ 1
    · rw [Chapter.addFence_of_fits hfits.1 hfits.2]
      exact ⟨fun hrest ↦ ⟨fun _ ↦ hfits.1, hfits.2, hrest⟩, fun hall ↦ hall.2.2⟩
    · obtain ⟨error, herror⟩ := Chapter.exists_addFence_error hone hfits
      rw [herror]
      exact iff_of_false (by rintro ⟨⟩) fun hall ↦ hfits ⟨hall.1 hfence, hall.2.1⟩

/-- Blocks are read into the open chapter as long as their languages are known and there is at most
one input among all of its blocks. -/
theorem casesFrom_body_eq_ok_iff {body : List Block} (h : ∀ block ∈ body, block.isTest = false)
    (chapter : Chapter) (hone : chapter.inputs.length ≤ 1) (rest : List Block)
    (result : List Case) :
    casesFrom (some chapter.draft) (body ++ rest) = .ok result ↔
      (∀ block ∈ body, block.language ≠ [] → IsKnown block.language) ∧
        (chapter.extend body).inputs.length ≤ 1 ∧
        casesFrom (some (chapter.extend body).draft) rest = .ok result := by
  induction body generalizing chapter with
  | nil => simp [Chapter.extend, hone]
  | cons block body ih =>
    rw [List.forall_mem_cons] at h
    rw [List.cons_append, List.forall_mem_cons, Chapter.extend_cons,
      casesFrom_block_eq_ok_iff h.1 hone]
    constructor
    · rintro ⟨hknown, hadd, hrest⟩
      obtain ⟨hbody, hextend, hrest⟩ := (ih h.2 _ hadd).mp hrest
      exact ⟨⟨hknown, hbody⟩, hextend, hrest⟩
    · rintro ⟨⟨hknown, hbody⟩, hextend, hrest⟩
      have hadd : (chapter.add block).inputs.length ≤ 1 := by
        rw [Chapter.inputs_extend, List.length_append] at hextend
        omega
      exact ⟨hknown, hadd, (ih h.2 _ hadd).mpr ⟨hbody, hextend, hrest⟩⟩

/-- At a heading of a test case and at the end the open chapter is finished. -/
theorem casesFrom_chapters (draft : Draft) (chapters : List Chapter) :
    casesFrom (some draft) (chapters.flatMap Chapter.blocks) =
      draft.finish.bind fun first ↦
        (casesFrom none (chapters.flatMap Chapter.blocks)).map (first :: ·) := by
  cases chapters with
  | nil =>
    rw [List.flatMap_nil, casesFrom_end]
    cases draft.finish <;> rfl
  | cons chapter chapters =>
    have hname := (testName?_eq_some_iff (utf8 "Test: " ++ chapter.name) chapter.name).mpr rfl
    rw [List.flatMap_cons, Chapter.blocks, List.cons_append, casesFrom_next_test hname,
      casesFrom_first_test hname]

theorem casesFrom_chapters_eq_ok_iff {chapters : List Chapter}
    (h : ∀ chapter ∈ chapters, ∀ block ∈ chapter.body, block.isTest = false) (result : List Case) :
    casesFrom none (chapters.flatMap Chapter.blocks) = .ok result ↔
      (∀ chapter ∈ chapters, chapter.IsComplete) ∧ List.Forall₂ Chapter.Gives chapters result := by
  induction chapters generalizing result with
  | nil =>
    have hnil : casesFrom none [] = .ok [] := by rw [casesFrom]
    rw [List.flatMap_nil, hnil, List.forall₂_nil_left_iff]
    simp [eq_comm]
  | cons chapter chapters ih =>
    rw [List.forall_mem_cons] at h
    have hname := (testName?_eq_some_iff (utf8 "Test: " ++ chapter.name) chapter.name).mpr rfl
    have hbody := casesFrom_body_eq_ok_iff h.1 ⟨chapter.name, chapter.line, []⟩ (Nat.zero_le 1)
      (chapters.flatMap Chapter.blocks) result
    have hextend : (Chapter.mk chapter.name chapter.line []).extend chapter.body = chapter := rfl
    have hfinish : casesFrom (some chapter.draft) (chapters.flatMap Chapter.blocks) = .ok result ↔
        ∃ first more, chapter.draft.finish = .ok first ∧
          casesFrom none (chapters.flatMap Chapter.blocks) = .ok more ∧ result = first :: more := by
      rw [casesFrom_chapters]
      cases chapter.draft.finish with
      | error error => simp [Except.bind]
      | ok first =>
        cases casesFrom none (chapters.flatMap Chapter.blocks) with
        | error error => simp [Except.bind, Except.map]
        | ok more => simp [Except.bind, Except.map, eq_comm]
    rw [List.flatMap_cons, Chapter.blocks, List.cons_append, casesFrom_first_test hname, hbody,
      hextend, hfinish, List.forall_mem_cons, List.forall₂_cons_left_iff]
    constructor
    · rintro ⟨hknown, hone, first, more, hfirst, hmore, rfl⟩
      obtain ⟨hcomplete, hgives⟩ := (chapter.finish_eq_ok_iff first).mp ⟨hknown, hone, hfirst⟩
      obtain ⟨hcompletes, hall⟩ := (ih h.2 more).mp hmore
      exact ⟨⟨hcomplete, hcompletes⟩, first, more, hgives, hall, rfl⟩
    · rintro ⟨⟨hcomplete, hcompletes⟩, first, more, hgives, hall, rfl⟩
      obtain ⟨hknown, hone, hfirst⟩ := (chapter.finish_eq_ok_iff first).mpr ⟨hcomplete, hgives⟩
      exact ⟨hknown, hone, first, more, hfirst, (ih h.2 more).mpr ⟨hcompletes, hall⟩, rfl⟩

/-- Blocks that neither start a test case nor have a language can be left out. -/
theorem casesFrom_filter_counts (draft : Option Draft) (blocks : List Block) :
    casesFrom draft (blocks.filter Block.counts) = casesFrom draft blocks := by
  induction blocks generalizing draft with
  | nil => rfl
  | cons block rest ih =>
    by_cases hcounts : block.counts = true
    · rw [List.filter_cons_of_pos hcounts]
      cases block <;> cases draft <;> simp only [casesFrom, ih]
    · rw [List.filter_cons_of_neg hcounts, ih, casesFrom_of_not_counts]
      exact Bool.not_eq_true _ ▸ hcounts

/-- Extraction is exact. It succeeds if and only if no fence with a language stands before the first
heading of a test case and every chapter is complete; it then gives the case of each chapter, in
order. If it fails, it reports the first violation in the order of the document. What neither starts
a test case nor has a language has no effect. -/
theorem casesFrom_exact (blocks : List Block) :
    ∃ preamble chapters, IsDivision blocks preamble chapters ∧
      ((∃ result, casesFrom none blocks = .ok result) ↔
        (∀ block ∈ preamble, block.language = []) ∧ ∀ chapter ∈ chapters, chapter.IsComplete) ∧
      (∀ result, casesFrom none blocks = .ok result → List.Forall₂ Chapter.Gives chapters result) ∧
      (∀ error, casesFrom none blocks = .error error ↔ ViolatesFirst [] blocks error) ∧
      casesFrom none (blocks.filter Block.counts) = casesFrom none blocks := by
  obtain ⟨preamble, chapters, hdivision⟩ := exists_isDivision blocks
  have hok : ∀ result, casesFrom none blocks = .ok result ↔
      (∀ block ∈ preamble, block.language = []) ∧ (∀ chapter ∈ chapters, chapter.IsComplete) ∧
        List.Forall₂ Chapter.Gives chapters result := by
    intro result
    rw [hdivision.blocks_eq, casesFrom_preamble_eq_ok_iff hdivision.preamble,
      casesFrom_chapters_eq_ok_iff hdivision.bodies]
  refine ⟨preamble, chapters, hdivision, ⟨?_, ?_⟩, ?_, casesFrom_eq_error_iff [] blocks,
    casesFrom_filter_counts none blocks⟩
  · rintro ⟨result, hresult⟩
    obtain ⟨hpreamble, hcomplete, -⟩ := (hok result).mp hresult
    exact ⟨hpreamble, hcomplete⟩
  · rintro ⟨hpreamble, hcomplete⟩
    obtain ⟨result, hresult⟩ := exists_forall₂_gives hcomplete
    exact ⟨result, (hok result).mpr ⟨hpreamble, hcomplete, hresult⟩⟩
  · intro result hresult
    exact ((hok result).mp hresult).2.2

/-- A document with two test cases. There are a heading and a fence that do not count, and fences
with blank lines at their ends. -/
def notedDocument : Bytes :=
  utf8 "# Notes\n## Test: loop\n~~~\nfree\n~~~\n~~~xenon\ninit\n\tbreak\n\n~~~\n" ++
    utf8 "~~~dump\n   1: init\n\n\n~~~\n## Test: word\n~~~xenon-line\nx\n~~~\n" ++
    utf8 "~~~words\nx\n~~~\n~~~scope\n0\n~~~\n"

/-- The cases in it. The input keeps all blank lines at its end but for one newline, and what is
expected keeps none. -/
def notedCases : List Case :=
  [⟨utf8 "loop", 2, .source, utf8 "init\n\tbreak\n", [(.dump, utf8 "   1: init")]⟩,
    ⟨utf8 "word", 16, .line, utf8 "x", [(.words, utf8 "x"), (.scope, utf8 "0")]⟩]

theorem casesFrom_exact_notedDocument :
    cases notedDocument = .ok notedCases ∧
      ∃ preamble chapters, IsDivision (blocks notedDocument) preamble chapters ∧
        (∀ chapter ∈ chapters, chapter.IsComplete) ∧
        List.Forall₂ Chapter.Gives chapters notedCases := by
  have hcases : cases notedDocument = .ok notedCases := by decide +kernel
  obtain ⟨preamble, chapters, hdivision, hok, hgives, -⟩ := casesFrom_exact (blocks notedDocument)
  exact ⟨hcases, preamble, chapters, hdivision, (hok.mp ⟨notedCases, hcases⟩).2,
    hgives notedCases hcases⟩

-- That the first case has no input shows before the language in the second case is looked at.
example : casesFrom none
    [.heading 1 (utf8 "Test: a"), .fence 3 (utf8 "words") [], .heading 5 (utf8 "Test: b"),
      .fence 7 (utf8 "lua") []] = .error (.noInput (utf8 "a")) := by
  decide

end LineScript.Casebook
