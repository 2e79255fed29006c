import LineScript.Proofs.Statement.Expression
import Mathlib.Data.List.Basic

/-!
Validation accepts the statements of the grammar. A rule that is not broken and a word that is
missing both let validation go on, so each check says something only together with the count of
words at its end; read together, the checks after a keyword say exactly what may follow it.
-/

set_option autoImplicit false
set_option relaxedAutoImplicit false

namespace LineScript.Statement

/-! ### Parameters -/

theorem exists_parameterList {words rest : List Word} (h : parameterList words = some rest) :
    ∃ list, words = list ++ rest ∧ ParameterList list := by
  fun_induction parameterList words with
  | case1 name colon type delimiter tail hparameter hclosing =>
    cases h
    exact ⟨[name, colon, type, delimiter], rfl,
      .last hparameter.1 hparameter.2.1 hparameter.2.2 hclosing⟩
  | case2 name colon type delimiter tail hparameter _ hcomma ih =>
    obtain ⟨list, rfl, hlist⟩ := ih h
    exact ⟨name :: colon :: type :: delimiter :: list, rfl,
      .more hparameter.1 hparameter.2.1 hparameter.2.2 hcomma hlist⟩
  | case3 | case4 | case5 => cases h

theorem parameterList_append {list : List Word} (h : ParameterList list) (rest : List Word) :
    parameterList (list ++ rest) = some rest := by
  induction h with
  | last hname hcolon htype hclosing =>
    rw [List.cons_append, List.cons_append, List.cons_append, List.singleton_append,
      parameterList, if_pos ⟨hname, hcolon, htype⟩, if_pos hclosing]
  | @more name colon type comma list hname hcolon htype hcomma _ ih =>
    have hclosing : ¬ comma.kind = .closing := by
      rw [hcomma]
      decide
    rw [List.cons_append, List.cons_append, List.cons_append, List.cons_append, parameterList,
      if_pos ⟨hname, hcolon, htype⟩, if_neg hclosing, if_pos hcomma]
    exact ih

theorem parameters_eq_some_iff (words rest : List Word) :
    parameters words = some rest ↔ ∃ phrase, words = phrase ++ rest ∧ Parameters phrase := by
  constructor
  · intro h
    rcases words with _ | ⟨opening, _ | ⟨next, tail⟩⟩
    · cases h
    · cases h
    · rw [parameters] at h
      split_ifs at h with hopening hclosing
      · cases h
        exact ⟨[opening, next], rfl, .none hopening hclosing⟩
      · obtain ⟨list, hwords, hlist⟩ := exists_parameterList h
        exact ⟨opening :: list, congrArg (opening :: ·) hwords, .some hopening hlist⟩
  · rintro ⟨phrase, rfl, hphrase⟩
    cases hphrase with
    | none hopening hclosing =>
      rw [List.cons_append, List.singleton_append, parameters, if_pos hopening, if_pos hclosing]
    | @some opening list hopening hlist =>
      have hskip := parameterList_append hlist rest
      have hfirst : ∃ first tail, list = first :: tail ∧ ¬ first.kind = .closing := by
        cases hlist with
        | last hname | more hname =>
          refine ⟨_, _, rfl, ?_⟩
          rw [hname]
          decide
      obtain ⟨first, tail, rfl, hclosing⟩ := hfirst
      rw [List.cons_append, List.cons_append, parameters, if_pos hopening, if_neg hclosing]
      exact hskip

theorem begins_of_parameters {phrase : List Word} (h : Parameters phrase) :
    ∃ opening next tail, phrase = opening :: next :: tail ∧ opening.kind = .opening := by
  cases h with
  | none hopening _ => exact ⟨_, _, _, rfl, hopening⟩
  | some hopening hlist =>
    cases hlist with
    | last | more => exact ⟨_, _, _, rfl, hopening⟩

/-! ### Checks -/

/-- A check passes when its rule is not broken and the checks after it pass. -/
theorem check_eq_none_iff {broken : Prop} [Decidable broken] {violation : Violation}
    {next : Option Violation} :
    (if broken then some violation else next) = none ↔ ¬ broken ∧ next = none := by
  by_cases h : broken <;> simp [h]

theorem accept_eq_none_iff {accepted : Prop} [Decidable accepted] {violation : Violation} :
    (if accepted then none else some violation) = none ↔ accepted := by
  by_cases h : accepted <;> simp [h]

theorem misses_some_iff (word : Word) (required : Word → Bool) :
    ¬ misses (some word) required = true ↔ required word = true := by
  simp [misses]

theorem misses_hasKind_iff (word : Word) (kind : Kind) :
    ¬ misses (some word) (hasKind kind) = true ↔ word.kind = kind := by
  rw [misses_some_iff, hasKind, beq_iff_eq]

theorem isEquals_kind {word : Word} (h : isEquals word = true) : word.kind = .operator := by
  rw [isEquals, Word.isOperator, Bool.and_eq_true, beq_iff_eq] at h
  exact h.1

theorem not_isEquals_of_cast {word : Word} (h : word.kind = .cast) : ¬ isEquals word = true := by
  intro hequals
  rw [isEquals_kind hequals] at h
  cases h

section Checks

variable (rest : List Word)

theorem includeViolation?_eq_none_iff :
    includeViolation? rest = none ↔ Follows .all .includeFile rest := by
  constructor
  · intro h
    rcases rest with _ | ⟨file, more⟩
    · cases h
    · rw [includeViolation?, check_eq_none_iff, accept_eq_none_iff, List.isEmpty_iff] at h
      obtain ⟨hfile, rfl⟩ := h
      exact .file (by by_cases htext : file.kind = .text <;> simp_all)
  · intro h
    cases h with
    | file hfile =>
      rw [includeViolation?, check_eq_none_iff, accept_eq_none_iff]
      exact ⟨fun hother ↦ hfile.elim hother.1 hother.2, rfl⟩

theorem timerViolation?_eq_none_iff :
    timerViolation? rest = none ↔ Follows .all .timer rest := by
  rw [timerViolation?]
  simp only [check_eq_none_iff]
  constructor
  · rintro ⟨hunit, hamount, hmany, hfew, -⟩
    have hlength : rest.length = 2 := by omega
    obtain ⟨unit, amount, rfl⟩ := List.length_eq_two.mp hlength
    exact .period (Bool.or_eq_true_iff.mp ((misses_some_iff _ _).mp hunit))
      ((misses_some_iff _ _).mp hamount)
  · intro h
    cases h with
    | period hunit hamount =>
      exact ⟨(misses_some_iff _ _).mpr (Bool.or_eq_true_iff.mpr hunit),
        (misses_some_iff _ _).mpr hamount, by simp⟩

theorem functionViolation?_eq_none_iff :
    functionViolation? rest = none ↔ Follows .all .function rest := by
  rw [functionViolation?]
  simp only [check_eq_none_iff]
  constructor
  · rintro ⟨hname, -, hlength, hparameters⟩
    rcases rest with _ | ⟨name, tail⟩
    · exact absurd (Nat.zero_lt_succ 2) hlength
    · have hkind := (misses_hasKind_iff _ _).mp hname
      simp only [List.tail_cons] at hparameters
      cases hskip : parameters tail with
      | none =>
        rw [hskip] at hparameters
        cases hparameters
      | some more =>
        obtain ⟨phrase, rfl, hphrase⟩ := (parameters_eq_some_iff tail more).mp hskip
        rw [hskip] at hparameters
        rcases more with _ | ⟨colon, _ | ⟨type, _ | ⟨extra, more⟩⟩⟩
        · rw [List.append_nil]
          exact .signature hkind hphrase
        · cases hparameters
        · rw [accept_eq_none_iff] at hparameters
          exact .typedSignature hkind hphrase hparameters.1 hparameters.2
        · cases hparameters
  · intro h
    cases h with
    | @signature name phrase hname hphrase =>
      have hskip := (parameters_eq_some_iff phrase []).mpr ⟨phrase, by simp, hphrase⟩
      obtain ⟨opening, next, tail, rfl, hopening⟩ := begins_of_parameters hphrase
      simp only [List.tail_cons, hskip]
      exact ⟨(misses_hasKind_iff _ _).mpr hname, (misses_hasKind_iff _ _).mpr hopening,
        by simp⟩
    | @typedSignature name colon type phrase hname hphrase hcolon htype =>
      have hskip := (parameters_eq_some_iff _ [colon, type]).mpr ⟨phrase, rfl, hphrase⟩
      obtain ⟨opening, next, tail, rfl, hopening⟩ := begins_of_parameters hphrase
      simp only [List.tail_cons, hskip]
      exact ⟨(misses_hasKind_iff _ _).mpr hname, (misses_hasKind_iff _ _).mpr hopening,
        by simp, accept_eq_none_iff.mpr ⟨hcolon, htype⟩⟩

theorem inputViolation?_eq_none_iff :
    inputViolation? rest = none ↔ Follows .all .input rest := by
  rw [inputViolation?]
  simp only [check_eq_none_iff]
  constructor
  · rintro ⟨hdot, hamount, -, hlength, hparameters⟩
    rcases rest with _ | ⟨dot, _ | ⟨amount, tail⟩⟩
    · exact absurd (Nat.zero_lt_succ 3) hlength
    · exact absurd (by simp) hlength
    · have hkind := (misses_hasKind_iff _ _).mp hdot
      simp only [List.drop_succ_cons, List.drop_zero] at hparameters
      cases hskip : parameters tail with
      | none =>
        rw [hskip] at hparameters
        cases hparameters
      | some more =>
        obtain ⟨phrase, rfl, hphrase⟩ := (parameters_eq_some_iff tail more).mp hskip
        rw [hskip] at hparameters
        rcases more with _ | ⟨extra, more⟩
        · rw [List.append_nil]
          exact .inputSignature hkind ((misses_some_iff _ _).mp hamount) hphrase
        · cases hparameters
  · intro h
    cases h with
    | @inputSignature dot amount phrase hdot hamount hphrase =>
      have hskip := (parameters_eq_some_iff phrase []).mpr ⟨phrase, by simp, hphrase⟩
      obtain ⟨opening, next, tail, rfl, hopening⟩ := begins_of_parameters hphrase
      simp only [List.drop_succ_cons, List.drop_zero, hskip]
      exact ⟨(misses_hasKind_iff _ _).mpr hdot, (misses_some_iff _ _).mpr hamount,
        (misses_hasKind_iff _ _).mpr hopening, by simp⟩

theorem constantViolation?_eq_none_iff :
    constantViolation? rest = none ↔ Follows .all .constant rest := by
  constructor
  · intro h
    rcases rest with _ | ⟨name, _ | ⟨sign, _ | ⟨first, tail⟩⟩⟩
    · cases h
    · cases h
    · cases h
    · rw [constantViolation?, check_eq_none_iff, check_eq_none_iff, accept_eq_none_iff,
        isExpression_iff] at h
      obtain ⟨hname, hsign, hvalue⟩ := h
      exact .definition (not_not.mp hname) (by simpa using hsign) hvalue
  · intro h
    cases h with
    | definition hname hsign hvalue =>
      obtain ⟨first, tail, rfl, -⟩ := begins_of_derives hvalue
      rw [constantViolation?, check_eq_none_iff, check_eq_none_iff, accept_eq_none_iff,
        isExpression_iff]
      exact ⟨not_not.mpr hname, by simpa using hsign, hvalue⟩

theorem storageViolation?_eq_none_iff :
    storageViolation? rest = none ↔ Follows .all .storage rest := by
  rw [storageViolation?]
  simp only [check_eq_none_iff]
  constructor
  · rintro ⟨hshape, hname, htype⟩
    rcases rest with _ | ⟨shape, _ | ⟨name, _ | ⟨colon, _ | ⟨type, more⟩⟩⟩⟩
    · cases htype
    · cases htype
    · cases htype
    · cases htype
    · simp only [List.drop_succ_cons, List.drop_zero, check_eq_none_iff, accept_eq_none_iff,
        List.isEmpty_iff] at htype
      obtain ⟨htype, -, rfl⟩ := htype
      rw [Bool.or_eq_true, not_or] at hname
      exact .storedType (Bool.or_eq_true_iff.mp ((misses_some_iff _ _).mp hshape))
        ((misses_hasKind_iff _ _).mp hname.1) ((misses_hasKind_iff _ _).mp hname.2)
        (by simpa using htype)
  · intro h
    cases h with
    | storedType hshape hname hcolon htype =>
      refine ⟨(misses_some_iff _ _).mpr (Bool.or_eq_true_iff.mpr hshape), ?_, ?_⟩
      · simp [misses, hasKind, hname, hcolon]
      · simp [htype]

theorem declarationViolation?_eq_none_iff :
    declarationViolation? rest = none ↔ Follows .all .variable rest := by
  constructor
  · intro h
    rcases rest with _ | ⟨name, _ | ⟨sign, _ | ⟨first, tail⟩⟩⟩
    · cases h
    · cases h
    · cases h
    · rw [declarationViolation?, check_eq_none_iff] at h
      obtain ⟨hname, h⟩ := h
      split_ifs at h with hsign hvalue htype
      · exact .initialValue (not_not.mp hname) hsign ((isExpression_iff _).mp hvalue)
      · obtain ⟨hcolon, htype, hend⟩ := htype
        rw [List.isEmpty_iff] at hend
        subst hend
        exact .variableType (not_not.mp hname) hcolon htype
  · intro h
    cases h with
    | initialValue hname hsign hvalue =>
      obtain ⟨first, tail, rfl, -⟩ := begins_of_derives hvalue
      rw [declarationViolation?, check_eq_none_iff, if_pos hsign, accept_eq_none_iff,
        isExpression_iff]
      exact ⟨not_not.mpr hname, hvalue⟩
    | variableType hname hcolon htype =>
      rw [declarationViolation?, check_eq_none_iff, if_neg (not_isEquals_of_cast hcolon),
        accept_eq_none_iff]
      exact ⟨not_not.mpr hname, hcolon, htype, rfl⟩

theorem arrayViolation?_eq_none_iff :
    arrayViolation? rest = none ↔ Follows .all .array rest := by
  unfold arrayViolation?
  simp only [check_eq_none_iff]
  constructor
  · rintro ⟨hshape, h⟩
    rcases rest with _ | ⟨name, _ | ⟨sign, _ | ⟨value, more⟩⟩⟩
    · cases h
    · cases h
    · cases h
    · simp only [check_eq_none_iff, accept_eq_none_iff, List.isEmpty_iff] at h
      obtain ⟨hcopy, htype, -, rfl⟩ := h
      rw [Bool.or_eq_true, not_or] at hshape
      have hname := (misses_hasKind_iff _ _).mp hshape.1
      rcases Bool.or_eq_true_iff.mp ((misses_some_iff _ _).mp hshape.2) with hcolon | hsign
      · rw [beq_iff_eq] at hcolon
        exact .elementType hname hcolon (by simpa [hcolon] using htype)
      · exact .copiedArray hname hsign (by simpa [hsign] using hcopy)
  · intro h
    cases h with
    | elementType hname hcolon htype =>
      simp [misses, hasKind, hname, hcolon, htype, not_isEquals_of_cast hcolon]
    | copiedArray hname hsign hsource =>
      simp [misses, hasKind, hname, hsign, hsource, isEquals_kind hsign]

theorem outputViolation?_eq_none_iff :
    outputViolation? rest = none ↔ Follows .all .output rest := by
  rw [outputViolation?]
  simp only [check_eq_none_iff, accept_eq_none_iff]
  constructor
  · rintro ⟨hdot, hamount, -, hlength, hvalues⟩
    rcases rest with _ | ⟨dot, _ | ⟨amount, tail⟩⟩
    · exact absurd (Nat.zero_lt_succ 3) hlength
    · exact absurd (by simp) hlength
    · exact .outputCall ((misses_hasKind_iff _ _).mp hdot) ((misses_some_iff _ _).mp hamount)
        ((isArguments_iff _).mp hvalues)
  · intro h
    cases h with
    | outputCall hdot hamount hvalues =>
      have haccepted := (isArguments_iff _).mpr hvalues
      obtain ⟨opening, next, tail, rfl, hopening⟩ := begins_of_derives hvalues
      exact ⟨(misses_hasKind_iff _ _).mpr hdot, (misses_some_iff _ _).mpr hamount,
        (misses_hasKind_iff _ _).mpr hopening, by simp, haccepted⟩

theorem forEachViolation?_eq_none_iff :
    forEachViolation? rest = none ↔ Follows .all .forEach rest := by
  rw [forEachViolation?]
  simp only [check_eq_none_iff]
  constructor
  · rintro ⟨harray, hparameters, h⟩
    simp only [Bool.or_eq_true, not_or] at hparameters
    obtain ⟨⟨⟨⟨hopening, hitem⟩, hdelimiter⟩, hindex⟩, hclosing⟩ := hparameters
    rcases rest with _ | ⟨array, _ | ⟨opening, _ | ⟨item, _ | ⟨delimiter, more⟩⟩⟩⟩
    · cases h
    · cases h
    · cases h
    · cases h
    · have hfirst := (misses_hasKind_iff _ _).mp harray
      have hsecond := (misses_hasKind_iff _ _).mp hopening
      have hthird := (misses_hasKind_iff _ _).mp hitem
      simp only [List.drop_succ_cons, List.drop_zero] at h
      split_ifs at h with hcomma hfew hmany hend
      · have hlength : more.length = 2 := by omega
        obtain ⟨index, closing, rfl⟩ := List.length_eq_two.mp hlength
        exact .indexedItems hfirst hsecond hthird hcomma
          ((misses_hasKind_iff _ _).mp hindex) ((misses_hasKind_iff _ _).mp hclosing)
      · rw [List.isEmpty_iff] at hend
        subst hend
        exact .items hfirst hsecond hthird (by simpa [misses, hcomma] using hdelimiter)
  · intro h
    cases h with
    | items harray hopening hitem hclosing =>
      simp [misses, hasKind, harray, hopening, hitem, hclosing]
    | indexedItems harray hopening hitem hcomma hindex hclosing =>
      simp [misses, hasKind, harray, hopening, hitem, hcomma, hindex, hclosing]

theorem repeatViolation?_eq_none_iff :
    repeatViolation? rest = none ↔ Follows .all .repeatLoop rest := by
  rw [repeatViolation?]
  simp only [check_eq_none_iff]
  constructor
  · rintro ⟨hamount, hparameter, hfew, hmany, -⟩
    simp only [Bool.or_eq_true, not_or] at hparameter
    obtain ⟨⟨hopening, hindex⟩, hclosing⟩ := hparameter
    rcases rest with _ | ⟨amount, _ | ⟨opening, _ | ⟨index, _ | ⟨closing, _ | ⟨extra, more⟩⟩⟩⟩⟩
    · exact absurd (by simp) hfew
    · exact absurd (by simp) hfew
    · exact absurd (by simp) hfew
    · exact absurd (by simp) hfew
    · exact .turns ((misses_some_iff _ _).mp hamount)
        ((misses_hasKind_iff _ _).mp hopening) ((misses_hasKind_iff _ _).mp hindex)
        ((misses_hasKind_iff _ _).mp hclosing)
    · exact absurd (by simp) hmany
  · intro h
    cases h with
    | turns hamount hopening hindex hclosing =>
      simp [misses, hasKind, hamount, hopening, hindex, hclosing]

theorem isEmpty_iff_of_alone {keyword : Keyword} (halone : Follows .all keyword [])
    (hempty : Follows .all keyword rest → rest = []) :
    rest.isEmpty = true ↔ Follows .all keyword rest := by
  rw [List.isEmpty_iff]
  constructor
  · rintro rfl
    exact halone
  · exact hempty

/-- The checks after a keyword accept what may follow it. -/
theorem keywordViolation?_eq_none_iff (keyword : Keyword) :
    keyword.violation? rest = none ↔ Follows .all keyword rest := by
  cases keyword with
  | includeFile => exact includeViolation?_eq_none_iff rest
  | constant => exact constantViolation?_eq_none_iff rest
  | «variable» => exact declarationViolation?_eq_none_iff rest
  | array => exact arrayViolation?_eq_none_iff rest
  | storage => exact storageViolation?_eq_none_iff rest
  | function => exact functionViolation?_eq_none_iff rest
  | timer => exact timerViolation?_eq_none_iff rest
  | input => exact inputViolation?_eq_none_iff rest
  | output => exact outputViolation?_eq_none_iff rest
  | forEach => exact forEachViolation?_eq_none_iff rest
  | repeatLoop => exact repeatViolation?_eq_none_iff rest
  | initBlock =>
    exact accept_eq_none_iff.trans (isEmpty_iff_of_alone rest .initAlone fun h ↦ by cases h; rfl)
  | tickBlock =>
    exact accept_eq_none_iff.trans (isEmpty_iff_of_alone rest .tickAlone fun h ↦ by cases h; rfl)
  | breakLoop =>
    exact accept_eq_none_iff.trans (isEmpty_iff_of_alone rest .breakAlone fun h ↦ by cases h; rfl)
  | nextTurn =>
    exact accept_eq_none_iff.trans (isEmpty_iff_of_alone rest .nextAlone fun h ↦ by cases h; rfl)
  | elseBranch =>
    exact accept_eq_none_iff.trans (isEmpty_iff_of_alone rest .elseAlone fun h ↦ by cases h; rfl)
  | whileLoop =>
    rw [Keyword.violation?, accept_eq_none_iff, isExpression_iff]
    exact ⟨.whileCondition, fun h ↦ by cases h; assumption⟩
  | ifBranch =>
    rw [Keyword.violation?, accept_eq_none_iff, isExpression_iff]
    exact ⟨.ifCondition, fun h ↦ by cases h; assumption⟩
  | elseIfBranch =>
    rw [Keyword.violation?, accept_eq_none_iff, isExpression_iff]
    exact ⟨.elseIfCondition, fun h ↦ by cases h; assumption⟩
  | returnValue =>
    rw [Keyword.violation?, accept_eq_none_iff, isExpression_iff, List.isEmpty_iff]
    constructor
    · rintro (rfl | hvalue)
      · exact .noResult
      · exact .result hvalue
    · intro h
      cases h with
      | noResult => exact Or.inl rfl
      | result hvalue => exact Or.inr hvalue

theorem callViolation?_eq_none_iff :
    callViolation? rest = none ↔ Derives .all .arguments rest := by
  rw [callViolation?]
  simp only [check_eq_none_iff, accept_eq_none_iff, isArguments_iff]
  constructor
  · rintro ⟨-, -, hvalues⟩
    exact hvalues
  · intro hvalues
    obtain ⟨opening, next, tail, rfl, hopening⟩ := begins_of_derives hvalues
    exact ⟨(misses_hasKind_iff _ _).mpr hopening, by simp, hvalues⟩

/-- What may follow a variable and a dot at the beginning of a line. -/
theorem memberViolation?_eq_none_iff :
    memberViolation? rest = none ↔
      (∃ member operator value, rest = member :: operator :: value ∧ member.isAmount = true ∧
        operator.operatorClass? = some .assignment ∧ Derives .all .expression value) ∨
      ∃ member values, rest = member :: values ∧
        (member.kind = .name ∨ member.kind = .funcname) ∧ Derives .all .arguments values := by
  constructor
  · intro h
    rcases rest with _ | ⟨member, _ | ⟨next, _ | ⟨value, tail⟩⟩⟩
    · cases h
    · cases h
    · cases h
    · rw [memberViolation?] at h
      cases hkind : member.kind with
      | numeric | varname =>
        rw [hkind] at h
        simp only [accept_eq_none_iff, isExpression_iff] at h
        exact Or.inl ⟨member, next, value :: tail, rfl, by simp [Word.isAmount, hkind], h⟩
      | name | funcname =>
        rw [hkind] at h
        simp only [check_eq_none_iff, accept_eq_none_iff, isArguments_iff] at h
        exact Or.inr ⟨member, next :: value :: tail, rfl, by simp [hkind], h.2⟩
      | _ =>
        rw [hkind] at h
        cases h
  · rintro (⟨member, operator, value, rfl, hmember, hoperator, hvalue⟩ |
      ⟨member, values, rfl, hmember, hvalues⟩)
    · obtain ⟨first, tail, rfl, -⟩ := begins_of_derives hvalue
      rw [Word.isAmount, Bool.or_eq_true, beq_iff_eq, beq_iff_eq] at hmember
      rw [memberViolation?]
      rcases hmember with hkind | hkind <;> rw [hkind] <;>
        exact accept_eq_none_iff.mpr ⟨hoperator, (isExpression_iff _).mpr hvalue⟩
    · obtain ⟨opening, next, tail, rfl, hopening⟩ := begins_of_derives hvalues
      rw [memberViolation?]
      rcases hmember with hkind | hkind <;> rw [hkind] <;>
        exact check_eq_none_iff.mpr ⟨not_not.mpr hopening,
          accept_eq_none_iff.mpr ((isArguments_iff _).mpr hvalues)⟩

end Checks

/-! ### Statements -/

theorem operatorClass?_eq_trail_iff (word : Word) :
    word.operatorClass? = some .trail ↔ word.kind = .trail := by
  constructor
  · intro h
    rw [Word.operatorClass?] at h
    cases hkind : word.kind with
    | trail => rfl
    | operator =>
      have hnone : ∀ entry ∈ operatorTable, entry.2 ≠ .trail := by decide
      rw [hkind] at h
      obtain ⟨before, after, htable, -⟩ := List.lookup_eq_some_iff.mp h
      exact absurd rfl (hnone (word.text, .trail) (by rw [htable]; simp))
    | name =>
      simp only [hkind] at h
      split_ifs at h <;> simp at h
    | _ => simp [hkind] at h
  · intro h
    rw [Word.operatorClass?, h]

theorem variableViolation?_eq_none_iff {target : Word} (htarget : target.kind = .varname)
    (rest : List Word) :
    variableViolation? rest = none ↔ IsStatement .all (target :: rest) := by
  constructor
  · intro h
    rcases rest with _ | ⟨word, rest⟩
    · cases h
    · rw [variableViolation?] at h
      split at h
      · rename_i hclass
        rw [check_eq_none_iff, accept_eq_none_iff, isExpression_iff] at h
        exact .assignment htarget hclass h.2
      · rename_i hclass
        rw [accept_eq_none_iff, List.isEmpty_iff] at h
        subst h
        exact .counting htarget hclass
      · rename_i hclass
        rw [operatorClass?_eq_trail_iff] at hclass
        rcases (memberViolation?_eq_none_iff rest).mp h with
          ⟨member, operator, value, rfl, hmember, hoperator, hvalue⟩ |
          ⟨member, values, rfl, hmember, hvalues⟩
        · exact .memberAssignment htarget hclass hmember hoperator hvalue
        · exact .memberCall htarget hclass hmember hvalues
      · cases h
  · intro h
    cases h with
    | keyword hname => rw [htarget] at hname; cases hname
    | call hfunction => rw [htarget] at hfunction; cases hfunction
    | assignment _ hoperator hvalue =>
      have haccepted := (isExpression_iff _).mpr hvalue
      obtain ⟨first, tail, rfl, -⟩ := begins_of_derives hvalue
      rw [variableViolation?, hoperator]
      exact check_eq_none_iff.mpr ⟨by simp, accept_eq_none_iff.mpr haccepted⟩
    | counting _ hoperator =>
      rw [variableViolation?, hoperator]
      rfl
    | memberAssignment _ hdot hmember hoperator hvalue =>
      rw [variableViolation?, (operatorClass?_eq_trail_iff _).mpr hdot]
      exact (memberViolation?_eq_none_iff _).mpr
        (Or.inl ⟨_, _, _, rfl, hmember, hoperator, hvalue⟩)
    | memberCall _ hdot hmember hvalues =>
      rw [variableViolation?, (operatorClass?_eq_trail_iff _).mpr hdot]
      exact (memberViolation?_eq_none_iff _).mpr (Or.inr ⟨_, _, rfl, hmember, hvalues⟩)

theorem ofText?_eq_some_iff (text : Bytes) (keyword : Keyword) :
    Keyword.ofText? text = some keyword ↔ text = keyword.spelling := by
  constructor
  · intro h
    have hfound := List.find?_some h
    rw [beq_iff_eq] at hfound
    exact hfound.symm
  · rintro rfl
    cases keyword <;> decide

/-- The first word of a statement decides how it goes on. -/
theorem first_word_of_isStatement {rules : SuffixRules} {word : Word} {rest : List Word}
    (h : IsStatement rules (word :: rest)) :
    word.kind = .varname ∨ (word.kind = .funcname ∧ Derives rules .arguments rest) ∨
      word.kind = .name ∧ ∃ keyword : Keyword, word.text = keyword.spelling ∧
        Follows rules keyword rest := by
  cases h with
  | keyword hname htext hfollows => exact Or.inr (Or.inr ⟨hname, _, htext, hfollows⟩)
  | assignment htarget => exact Or.inl htarget
  | counting htarget => exact Or.inl htarget
  | memberAssignment htarget => exact Or.inl htarget
  | memberCall htarget => exact Or.inl htarget
  | call hfunction hvalues => exact Or.inr (Or.inl ⟨hfunction, hvalues⟩)

/-- Validation accepts lines without words and the statements of the grammar, and no others. -/
theorem violation?_eq_none_iff (words : List Word) :
    violation? words = none ↔ words = [] ∨ IsStatement .all words := by
  rcases words with _ | ⟨word, rest⟩
  · exact ⟨fun _ ↦ Or.inl rfl, fun _ ↦ rfl⟩
  rw [violation?, or_iff_right (List.cons_ne_nil word rest)]
  have hfirst : IsStatement .all (word :: rest) → _ := first_word_of_isStatement
  cases hkind : word.kind with
  | varname => exact variableViolation?_eq_none_iff hkind rest
  | funcname =>
    simp only [hkind, reduceCtorEq, true_and, false_and, false_or, or_false] at hfirst
    rw [callViolation?_eq_none_iff]
    exact ⟨.call hkind, hfirst⟩
  | name =>
    simp only [hkind, reduceCtorEq, true_and, false_and, false_or] at hfirst
    constructor
    · intro h
      cases hkeyword : Keyword.ofText? word.text with
      | none =>
        rw [hkeyword] at h
        cases h
      | some keyword =>
        rw [hkeyword] at h
        exact .keyword hkind ((ofText?_eq_some_iff _ _).mp hkeyword)
          ((keywordViolation?_eq_none_iff rest keyword).mp h)
    · intro h
      obtain ⟨keyword, htext, hfollows⟩ := hfirst h
      rw [(ofText?_eq_some_iff _ _).mpr htext]
      exact (keywordViolation?_eq_none_iff rest keyword).mpr hfollows
  | _ =>
    simp only [hkind, reduceCtorEq, false_and, false_or] at hfirst
    exact ⟨fun h ↦ (Option.some_ne_none _ h).elim, fun h ↦ (hfirst h).elim⟩

/-- Where operands have only plain members after them, no word of a phrase is a cast. -/
theorem kind_ne_cast_of_derives {category : Category} {phrase : List Word}
    (h : Derives .membersOnly category phrase) : ∀ word ∈ phrase, word.kind ≠ .cast := by
  induction h with
  | expression _ _ ihfirst ihmore => exact List.forall_mem_append.mpr ⟨ihfirst, ihmore⟩
  | noMore | noSuffix => exact List.forall_mem_nil _
  | oneMore hbinary _ _ ihfirst ihmore =>
    refine List.forall_mem_cons.mpr ⟨?_, List.forall_mem_append.mpr ⟨ihfirst, ihmore⟩⟩
    rcases kind_of_isBinary hbinary with hkind | hkind <;> simp [hkind]
  | signed hsign _ ih =>
    exact List.forall_mem_cons.mpr ⟨by simp [kind_of_isUnary hsign], ih⟩
  | unsigned _ _ ihvalue ihafter => exact List.forall_mem_append.mpr ⟨ihvalue, ihafter⟩
  | literal hkind => rcases hkind with hkind | hkind | hkind <;> simp [hkind]
  | name hkind => simp [hkind]
  | call hkind _ ih =>
    refine List.forall_mem_cons.mpr ⟨?_, ih⟩
    rcases hkind with hkind | hkind <;> simp [hkind]
  | group hopening _ hclosing ih =>
    exact List.forall_mem_cons.mpr
      ⟨by simp [hopening], List.forall_mem_append.mpr ⟨ih, by simp [hclosing]⟩⟩
  | member hdot hmember _ ih =>
    refine List.forall_mem_cons.mpr ⟨by simp [hdot], List.forall_mem_cons.mpr ⟨?_, ih⟩⟩
    intro hkind
    rw [isMember, hkind] at hmember
    exact absurd hmember (by decide)
  | memberCall hcalls => cases hcalls
  | cast hcasts => cases hcasts
  | noArguments hopening hclosing => simp [hopening, hclosing]
  | arguments hopening _ ih => exact List.forall_mem_cons.mpr ⟨by simp [hopening], ih⟩
  | lastArgument _ hclosing ih => exact List.forall_mem_append.mpr ⟨ih, by simp [hclosing]⟩
  | oneArgument _ hcomma _ ihvalue ihlist =>
    exact List.forall_mem_append.mpr
      ⟨ihvalue, List.forall_mem_cons.mpr ⟨by simp [hcomma], ihlist⟩⟩

/-- The words of `$x = $n:text`. -/
def castAssignment : List Word :=
  [⟨.varname, utf8 "x"⟩, ⟨.operator, utf8 "="⟩, ⟨.varname, utf8 "n"⟩, ⟨.cast, utf8 ":"⟩,
   ⟨.name, utf8 "text"⟩]

/-- Validation accepts a cast, and so more than a grammar with plain members only. -/
theorem violation?_castAssignment :
    ¬ (violation? castAssignment = none ↔
      castAssignment = [] ∨ IsStatement .membersOnly castAssignment) := by
  have hkind : (⟨.varname, utf8 "x"⟩ : Word).kind = .varname := rfl
  have hcast : Derives .all .suffixes [⟨.cast, utf8 ":"⟩, ⟨.name, utf8 "text"⟩] :=
    .cast rfl rfl rfl .noSuffix
  have hvalue : Derives .all .expression (castAssignment.drop 2) :=
    .expression (.unsigned (.literal (Or.inr (Or.inr rfl))) hcast) .noMore
  have hstatement : IsStatement .all castAssignment := .assignment hkind (by decide) hvalue
  have haccepted : violation? castAssignment = none :=
    (variableViolation?_eq_none_iff hkind castAssignment.tail).mpr hstatement
  intro h
  rcases h.mp haccepted with hnil | hplain
  · cases hnil
  · cases hplain with
    | keyword hname => cases hname
    | assignment _ _ hvalue =>
      exact kind_ne_cast_of_derives hvalue ⟨.cast, utf8 ":"⟩ (by simp) rfl
    | memberAssignment _ hdot => cases hdot
    | memberCall _ hdot => cases hdot
    | call hfunction => cases hfunction

end LineScript.Statement
