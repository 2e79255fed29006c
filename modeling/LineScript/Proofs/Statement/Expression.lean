import LineScript.Proofs.Statement.Grammar
import Mathlib.Tactic.SplitIfs

/-!
The recognisers of expressions accept the phrases of the grammar. A recogniser takes as much as it
can and never goes back, and loses nothing by that: the word after a phrase is never one that could
make the phrase longer.
-/

set_option autoImplicit false
set_option relaxedAutoImplicit false

namespace LineScript.Statement

/-! ### Equations of the recognisers -/

/-- What follows a phrase of a category at the beginning of some words. -/
def skip (category : Category) (words : List Word) : Option (List Word) :=
  match category with
  | .expression => (expression words).map Subtype.val
  | .moreOperands => (moreOperands words).map Subtype.val
  | .operand => (operand words).map Subtype.val
  | .primary => (primary words).map Subtype.val
  | .suffixes => (suffixes words).map Subtype.val
  | .arguments => (arguments words).map Subtype.val
  | .argumentList => (argumentList words).map Subtype.val

/-- The same where an argument list is left out unless a parenthesis announces one. -/
def skipOptional (words : List Word) : Option (List Word) :=
  (optionalArguments words).map Subtype.val

theorem skip_expression (words : List Word) :
    skip .expression words = (skip .operand words).bind (skip .moreOperands) := by
  simp only [skip]
  rw [expression]
  cases operand words with
  | none => rfl
  | some first =>
    simp only [skip, Option.map_some, Option.bind_some]
    cases moreOperands first.val <;> rfl

theorem skip_moreOperands_cons (word : Word) (rest : List Word) :
    skip .moreOperands (word :: rest) =
      if word.isBinary then (skip .operand rest).bind (skip .moreOperands)
      else some (word :: rest) := by
  simp only [skip]
  rw [moreOperands]
  split_ifs
  · cases operand rest with
    | none => rfl
    | some first =>
      simp only [skip, Option.map_some, Option.bind_some]
      cases moreOperands first.val <;> rfl
  · rfl

theorem skip_operand_cons (word : Word) (rest : List Word) :
    skip .operand (word :: rest) =
      if word.isUnary then skip .operand rest
      else (skip .primary (word :: rest)).bind (skip .suffixes) := by
  simp only [skip]
  rw [operand]
  split_ifs
  · cases operand rest <;> rfl
  · cases primary (word :: rest) with
    | none => rfl
    | some value =>
      simp only [skip, Option.map_some, Option.bind_some]
      cases suffixes value.val <;> rfl

/-- What follows a word of some kind. -/
def skipKind (kind : Kind) : List Word → Option (List Word)
  | [] => none
  | word :: rest => if word.kind = kind then some rest else none

theorem exists_of_skipKind {kind : Kind} {words rest : List Word}
    (h : skipKind kind words = some rest) : ∃ word, words = word :: rest ∧ word.kind = kind := by
  cases words with
  | nil => cases h
  | cons word tail =>
    rw [skipKind] at h
    split_ifs at h with hkind
    exact ⟨word, congrArg (word :: ·) (Option.some.inj h), hkind⟩

theorem skip_primary_cons (word : Word) (rest : List Word) :
    skip .primary (word :: rest) =
      match word.kind with
      | .numeric | .text | .varname => some rest
      | .name => skipOptional rest
      | .funcname => skip .arguments rest
      | .opening => (skip .expression rest).bind (skipKind .closing)
      | _ => none := by
  simp only [skip, skipOptional]
  rw [primary]
  cases word.kind with
  | name => cases optionalArguments rest <;> rfl
  | funcname => cases arguments rest <;> rfl
  | opening =>
    cases expression rest with
    | none => rfl
    | some inner =>
      obtain ⟨_ | ⟨closing, after⟩, hinner⟩ := inner
      · rfl
      · simp only [Option.map_some, Option.bind_some, skipKind]
        split_ifs <;> rfl
  | _ => rfl

theorem skipOptional_cons (word : Word) (rest : List Word) :
    skipOptional (word :: rest) =
      if word.kind = .opening then skip .arguments (word :: rest) else some (word :: rest) := by
  simp only [skip, skipOptional]
  rw [optionalArguments]
  split_ifs
  · cases arguments (word :: rest) <;> rfl
  · rfl

theorem skip_suffixes_cons_cons (word next : Word) (rest : List Word) :
    skip .suffixes (word :: next :: rest) =
      if word.kind = .trail then
        if isMember next then (skipOptional rest).bind (skip .suffixes) else none
      else if word.kind = .cast ∧ next.kind = .name then skip .suffixes rest
      else some (word :: next :: rest) := by
  simp only [skip, skipOptional]
  rw [suffixes]
  split_ifs
  · cases optionalArguments rest with
    | none => rfl
    | some after =>
      simp only [skip, Option.map_some, Option.bind_some]
      cases suffixes after.val <;> rfl
  · rfl
  · cases suffixes rest <;> rfl
  · rfl

theorem skip_arguments_cons_cons (word next : Word) (rest : List Word) :
    skip .arguments (word :: next :: rest) =
      if word.kind = .opening then
        if next.kind = .closing then some rest else skip .argumentList (next :: rest)
      else none := by
  simp only [skip]
  rw [arguments]
  split_ifs
  · rfl
  · cases argumentList (next :: rest) <;> rfl
  · rfl

/-- What follows the delimiter of an argument: a parenthesis ends the list. -/
def skipDelimiter : List Word → Option (List Word)
  | [] => none
  | word :: rest =>
    if word.kind = .closing then some rest
    else if word.kind = .comma then skip .argumentList rest
    else none

theorem skip_argumentList (words : List Word) :
    skip .argumentList words = (skip .expression words).bind skipDelimiter := by
  simp only [skip]
  rw [argumentList]
  cases expression words with
  | none => rfl
  | some value =>
    obtain ⟨_ | ⟨delimiter, rest⟩, hvalue⟩ := value
    · rfl
    · simp only [Option.map_some, Option.bind_some, skipDelimiter, skip]
      split_ifs
      · rfl
      · cases argumentList rest <;> rfl
      · rfl

theorem length_skip_lt {category : Category} {words rest : List Word}
    (hmore : category ≠ .moreOperands) (hsuffixes : category ≠ .suffixes)
    (h : skip category words = some rest) : rest.length < words.length := by
  cases category with
  | moreOperands => exact absurd rfl hmore
  | suffixes => exact absurd rfl hsuffixes
  | _ =>
    obtain ⟨found, -, rfl⟩ := Option.map_eq_some_iff.mp h
    exact found.property

/-! ### Soundness -/

/-- What a recogniser skips is a phrase. -/
def Sound (words : List Word) : Prop :=
  ∀ category rest, skip category words = some rest →
    ∃ phrase, words = phrase ++ rest ∧ Derives .all category phrase

theorem Sound.optional {words rest : List Word} (h : Sound words)
    (hskip : skipOptional words = some rest) :
    words = rest ∨ ∃ values, words = values ++ rest ∧ Derives .all .arguments values := by
  cases words with
  | nil =>
    rw [skipOptional, optionalArguments] at hskip
    exact Or.inl (Option.some.inj hskip)
  | cons word tail =>
    rw [skipOptional_cons] at hskip
    split_ifs at hskip
    · exact Or.inr (h .arguments rest hskip)
    · exact Or.inl (Option.some.inj hskip)

section Soundness

variable {words rest : List Word}
  (ih : ∀ shorter : List Word, shorter.length < words.length → Sound shorter)

include ih

theorem exists_primary (h : skip .primary words = some rest) :
    ∃ phrase, words = phrase ++ rest ∧ Derives .all .primary phrase := by
  cases words with
  | nil => simp [skip, primary] at h
  | cons word tail =>
    have htail : Sound tail := ih tail (Nat.lt_succ_self _)
    rw [skip_primary_cons] at h
    cases hkind : word.kind with
    | numeric | text | varname =>
      rw [hkind] at h
      cases h
      exact ⟨[word], rfl, .literal (by simp [hkind])⟩
    | name =>
      rw [hkind] at h
      rcases htail.optional h with rfl | ⟨values, rfl, hvalues⟩
      · exact ⟨[word], rfl, .name hkind⟩
      · exact ⟨word :: values, rfl, .call (Or.inl hkind) hvalues⟩
    | funcname =>
      rw [hkind] at h
      obtain ⟨values, rfl, hvalues⟩ := htail .arguments rest h
      exact ⟨word :: values, rfl, .call (Or.inr hkind) hvalues⟩
    | opening =>
      rw [hkind] at h
      obtain ⟨after, hinner, hclosing⟩ := Option.bind_eq_some_iff.mp h
      obtain ⟨inner, rfl, hderives⟩ := htail .expression after hinner
      obtain ⟨closing, rfl, hclosingKind⟩ := exists_of_skipKind hclosing
      refine ⟨word :: (inner ++ [closing]), ?_, .group hkind hderives hclosingKind⟩
      rw [List.cons_append, List.append_assoc, List.singleton_append]
    | _ =>
      rw [hkind] at h
      cases h

theorem exists_suffixes (h : skip .suffixes words = some rest) :
    ∃ phrase, words = phrase ++ rest ∧ Derives .all .suffixes phrase := by
  rcases words with _ | ⟨word, _ | ⟨next, tail⟩⟩
  · rw [skip, suffixes] at h
    exact ⟨[], (Option.some.inj h), .noSuffix⟩
  · rw [skip, suffixes] at h
    exact ⟨[], (Option.some.inj h), .noSuffix⟩
  · have htail : Sound tail := ih tail (by simp only [List.length_cons]; omega)
    rw [skip_suffixes_cons_cons] at h
    split_ifs at h with hdot hmember hcast
    · obtain ⟨after, hoptional, hafter⟩ := Option.bind_eq_some_iff.mp h
      rcases htail.optional hoptional with rfl | ⟨values, rfl, hvalues⟩
      · obtain ⟨more, rfl, hmore⟩ := htail .suffixes rest hafter
        exact ⟨word :: next :: more, rfl, .member hdot hmember hmore⟩
      · have hshorter : after.length < (word :: next :: (values ++ after)).length := by
          simp only [List.length_cons, List.length_append]
          omega
        have hsound : Sound after := ih after hshorter
        obtain ⟨more, rfl, hmore⟩ := hsound .suffixes rest hafter
        refine ⟨word :: next :: (values ++ more), ?_, .memberCall rfl hdot hmember hvalues hmore⟩
        rw [List.cons_append, List.cons_append, List.append_assoc]
    · obtain ⟨more, rfl, hmore⟩ := htail .suffixes rest h
      exact ⟨word :: next :: more, rfl, .cast rfl hcast.1 hcast.2 hmore⟩
    · exact ⟨[], (Option.some.inj h), .noSuffix⟩

theorem exists_operand (h : skip .operand words = some rest) :
    ∃ phrase, words = phrase ++ rest ∧ Derives .all .operand phrase := by
  cases words with
  | nil => simp [skip, operand] at h
  | cons word tail =>
    rw [skip_operand_cons] at h
    split_ifs at h with hsign
    · obtain ⟨value, rfl, hvalue⟩ := ih tail (Nat.lt_succ_self _) .operand rest h
      exact ⟨word :: value, rfl, .signed hsign hvalue⟩
    · obtain ⟨after, hprimary, hsuffixes⟩ := Option.bind_eq_some_iff.mp h
      have hshorter := length_skip_lt (by decide) (by decide) hprimary
      obtain ⟨value, hwords, hvalue⟩ := exists_primary ih hprimary
      obtain ⟨more, rfl, hmore⟩ := ih after hshorter .suffixes rest hsuffixes
      exact ⟨value ++ more, by rw [hwords, List.append_assoc], .unsigned hvalue hmore⟩

theorem exists_moreOperands (h : skip .moreOperands words = some rest) :
    ∃ phrase, words = phrase ++ rest ∧ Derives .all .moreOperands phrase := by
  cases words with
  | nil =>
    rw [skip, moreOperands] at h
    exact ⟨[], (Option.some.inj h), .noMore⟩
  | cons word tail =>
    rw [skip_moreOperands_cons] at h
    split_ifs at h with hbinary
    · obtain ⟨after, hoperand, hafter⟩ := Option.bind_eq_some_iff.mp h
      have hshorter := length_skip_lt (by decide) (by decide) hoperand
      obtain ⟨first, rfl, hfirst⟩ := ih tail (Nat.lt_succ_self _) .operand after hoperand
      obtain ⟨more, rfl, hmore⟩ :=
        ih after (Nat.lt_succ_of_lt hshorter) .moreOperands rest hafter
      exact ⟨word :: (first ++ more), by rw [List.cons_append, List.append_assoc],
        .oneMore hbinary hfirst hmore⟩
    · exact ⟨[], (Option.some.inj h), .noMore⟩

theorem exists_expression (h : skip .expression words = some rest) :
    ∃ phrase, words = phrase ++ rest ∧ Derives .all .expression phrase := by
  rw [skip_expression] at h
  obtain ⟨after, hoperand, hafter⟩ := Option.bind_eq_some_iff.mp h
  have hshorter := length_skip_lt (by decide) (by decide) hoperand
  obtain ⟨first, hwords, hfirst⟩ := exists_operand ih hoperand
  obtain ⟨more, rfl, hmore⟩ := ih after hshorter .moreOperands rest hafter
  exact ⟨first ++ more, by rw [hwords, List.append_assoc], .expression hfirst hmore⟩

theorem exists_arguments (h : skip .arguments words = some rest) :
    ∃ phrase, words = phrase ++ rest ∧ Derives .all .arguments phrase := by
  rcases words with _ | ⟨word, _ | ⟨next, tail⟩⟩
  · simp [skip, arguments] at h
  · simp [skip, arguments] at h
  · rw [skip_arguments_cons_cons] at h
    split_ifs at h with hopening hclosing
    · cases h
      exact ⟨[word, next], rfl, .noArguments hopening hclosing⟩
    · obtain ⟨list, hwords, hlist⟩ := ih (next :: tail) (Nat.lt_succ_self _) .argumentList rest h
      exact ⟨word :: list, congrArg (word :: ·) hwords, .arguments hopening hlist⟩

theorem exists_argumentList (h : skip .argumentList words = some rest) :
    ∃ phrase, words = phrase ++ rest ∧ Derives .all .argumentList phrase := by
  rw [skip_argumentList] at h
  obtain ⟨after, hexpression, hdelimiter⟩ := Option.bind_eq_some_iff.mp h
  have hshorter := length_skip_lt (by decide) (by decide) hexpression
  obtain ⟨value, hwords, hvalue⟩ := exists_expression ih hexpression
  cases after with
  | nil => cases hdelimiter
  | cons delimiter tail =>
    rw [skipDelimiter] at hdelimiter
    split_ifs at hdelimiter with hclosing hcomma
    · cases hdelimiter
      exact ⟨value ++ [delimiter], by simpa using hwords, .lastArgument hvalue hclosing⟩
    · obtain ⟨list, rfl, hlist⟩ :=
        ih tail (Nat.lt_of_succ_lt hshorter) .argumentList rest hdelimiter
      exact ⟨value ++ delimiter :: list, by simpa using hwords,
        .oneArgument hvalue hcomma hlist⟩

end Soundness

theorem sound (words : List Word) : Sound words := by
  induction hlength : words.length using Nat.strongRecOn generalizing words with
  | ind n ih =>
    subst hlength
    have hshorter : ∀ shorter : List Word, shorter.length < words.length → Sound shorter :=
      fun shorter h ↦ ih _ h shorter rfl
    intro category rest h
    cases category with
    | expression => exact exists_expression hshorter h
    | moreOperands => exact exists_moreOperands hshorter h
    | operand => exact exists_operand hshorter h
    | primary => exact exists_primary hshorter h
    | suffixes => exact exists_suffixes hshorter h
    | arguments => exact exists_arguments hshorter h
    | argumentList => exact exists_argumentList hshorter h

/-! ### Completeness -/

theorem kind_of_isBinary {word : Word} (h : word.isBinary = true) :
    word.kind = .name ∨ word.kind = .operator := by
  rw [Word.isBinary, Word.operatorClass?] at h
  cases hkind : word.kind with
  | name => exact Or.inl rfl
  | operator => exact Or.inr rfl
  | _ =>
    rw [hkind] at h
    exact absurd h Bool.false_ne_true

theorem kind_of_isUnary {word : Word} (h : word.isUnary = true) : word.kind = .operator := by
  simp only [Word.isUnary, Word.isOperator, Bool.or_eq_true, Bool.and_eq_true, beq_iff_eq] at h
  rcases h with h | h
  · exact h.1
  · exact h.1

/-- How a phrase of a category begins. -/
def Begins (category : Category) (phrase : List Word) : Prop :=
  match category with
  | .expression | .operand | .argumentList =>
    ∃ first tail, phrase = first :: tail ∧ first.kind ≠ .closing
  | .primary =>
    ∃ first tail, phrase = first :: tail ∧ first.kind ≠ .closing ∧ ¬ first.isUnary = true
  | .moreOperands => ∀ first ∈ phrase.head?, first.isBinary = true
  | .suffixes => ∀ first ∈ phrase.head?, first.kind = .trail ∨ first.kind = .cast
  | .arguments => ∃ first next tail, phrase = first :: next :: tail ∧ first.kind = .opening

theorem begins_primary_cons {word : Word} (tail : List Word) (hclosing : word.kind ≠ .closing)
    (hoperator : word.kind ≠ .operator) : Begins .primary (word :: tail) :=
  ⟨word, tail, rfl, hclosing, fun hunary ↦ hoperator (kind_of_isUnary hunary)⟩

theorem begins_of_derives {rules : SuffixRules} {category : Category} {phrase : List Word}
    (h : Derives rules category phrase) : Begins category phrase := by
  induction h with
  | expression _ _ ihfirst _ =>
    obtain ⟨first, tail, rfl, hfirst⟩ := ihfirst
    exact ⟨first, _, rfl, hfirst⟩
  | noMore => exact fun first hfirst ↦ absurd hfirst (Option.not_mem_none first)
  | oneMore hbinary _ _ _ _ =>
    rintro first hfirst
    exact Option.some.inj hfirst ▸ hbinary
  | signed hsign _ _ =>
    refine ⟨_, _, rfl, ?_⟩
    rw [kind_of_isUnary hsign]
    decide
  | unsigned _ _ ihvalue _ =>
    obtain ⟨first, tail, rfl, hfirst, -⟩ := ihvalue
    exact ⟨first, _, rfl, hfirst⟩
  | literal hkind =>
    rcases hkind with hkind | hkind | hkind <;>
      exact begins_primary_cons _ (by rw [hkind]; decide) (by rw [hkind]; decide)
  | name hkind => exact begins_primary_cons _ (by rw [hkind]; decide) (by rw [hkind]; decide)
  | call hkind _ _ =>
    rcases hkind with hkind | hkind <;>
      exact begins_primary_cons _ (by rw [hkind]; decide) (by rw [hkind]; decide)
  | group hopening _ _ _ =>
    exact begins_primary_cons _ (by rw [hopening]; decide) (by rw [hopening]; decide)
  | noSuffix => exact fun first hfirst ↦ absurd hfirst (Option.not_mem_none first)
  | member hdot _ _ _ =>
    rintro first hfirst
    exact Or.inl (Option.some.inj hfirst ▸ hdot)
  | memberCall _ hdot _ _ _ _ _ =>
    rintro first hfirst
    exact Or.inl (Option.some.inj hfirst ▸ hdot)
  | cast _ hcolon _ _ _ =>
    rintro first hfirst
    exact Or.inr (Option.some.inj hfirst ▸ hcolon)
  | noArguments hopening _ => exact ⟨_, _, _, rfl, hopening⟩
  | arguments hopening _ ihlist =>
    obtain ⟨first, tail, rfl, -⟩ := ihlist
    exact ⟨_, _, _, rfl, hopening⟩
  | lastArgument _ _ ihvalue =>
    obtain ⟨first, tail, rfl, hfirst⟩ := ihvalue
    exact ⟨first, _, rfl, hfirst⟩
  | oneArgument _ _ _ ihvalue _ =>
    obtain ⟨first, tail, rfl, hfirst⟩ := ihvalue
    exact ⟨first, _, rfl, hfirst⟩

/-- The words after an operand neither name a member of it nor cast it, and they open no
parenthesis. -/
def EndsOperand (rest : List Word) : Prop :=
  ∀ word ∈ rest.head?, word.kind ≠ .trail ∧ word.kind ≠ .cast ∧ word.kind ≠ .opening

/-- The words after a phrase of a category do not make it longer. -/
def Ends (category : Category) (rest : List Word) : Prop :=
  match category with
  | .expression | .moreOperands =>
    EndsOperand rest ∧ ∀ word ∈ rest.head?, ¬ word.isBinary = true
  | .operand | .suffixes => EndsOperand rest
  | .primary => ∀ word ∈ rest.head?, word.kind ≠ .opening
  | .arguments | .argumentList => True

theorem endsOperand_cons {word : Word} {rest : List Word}
    (h : word.kind ≠ .trail ∧ word.kind ≠ .cast ∧ word.kind ≠ .opening) :
    EndsOperand (word :: rest) :=
  fun _ hfirst ↦ Option.some.inj hfirst ▸ h

theorem ends_expression_delimiter {word : Word} {rest : List Word}
    (h : word.kind = .closing ∨ word.kind = .comma) : Ends .expression (word :: rest) := by
  refine ⟨endsOperand_cons ?_, fun other hother hbinary ↦ ?_⟩
  · rcases h with h | h <;> rw [h] <;> decide
  · obtain rfl : word = other := Option.some.inj hother
    rcases h with h | h <;> rcases kind_of_isBinary hbinary with hkind | hkind <;>
      rw [h] at hkind <;> cases hkind

theorem endsOperand_moreOperands {more rest : List Word} (hmore : Begins .moreOperands more)
    (hrest : EndsOperand rest) : EndsOperand (more ++ rest) := by
  cases more with
  | nil => exact hrest
  | cons operator more =>
    refine endsOperand_cons ?_
    rcases kind_of_isBinary (hmore operator rfl) with hkind | hkind <;> rw [hkind] <;> decide

theorem ends_primary_suffixes {after rest : List Word} (hafter : Begins .suffixes after)
    (hrest : EndsOperand rest) : Ends .primary (after ++ rest) := by
  cases after with
  | nil => exact fun word hword ↦ (hrest word hword).2.2
  | cons first after =>
    intro word hword
    obtain rfl : first = word := Option.some.inj hword
    rcases hafter first rfl with hkind | hkind <;> rw [hkind] <;> decide

theorem skipOptional_of_ends {rest : List Word} (h : Ends .primary rest) :
    skipOptional rest = some rest := by
  cases rest with
  | nil =>
    rw [skipOptional, optionalArguments]
    rfl
  | cons word tail => rw [skipOptional_cons, if_neg (h word rfl)]

theorem skip_suffixes_of_ends {rest : List Word} (h : EndsOperand rest) :
    skip .suffixes rest = some rest := by
  rcases rest with _ | ⟨word, _ | ⟨next, tail⟩⟩
  · rw [skip, suffixes]
    rfl
  · rw [skip, suffixes]
    rfl
  · obtain ⟨hdot, hcolon, -⟩ := h word rfl
    rw [skip_suffixes_cons_cons, if_neg hdot, if_neg fun hcast ↦ hcolon hcast.1]

theorem skip_moreOperands_of_ends {rest : List Word}
    (h : ∀ word ∈ rest.head?, ¬ word.isBinary = true) : skip .moreOperands rest = some rest := by
  cases rest with
  | nil =>
    rw [skip, moreOperands]
    rfl
  | cons word tail => rw [skip_moreOperands_cons, if_neg (h word rfl)]

theorem skipOptional_arguments {values : List Word} (h : Begins .arguments values)
    (rest : List Word) : skipOptional (values ++ rest) = skip .arguments (values ++ rest) := by
  obtain ⟨opening, next, tail, rfl, hopening⟩ := h
  rw [List.cons_append, skipOptional_cons, if_pos hopening]

/-- A recogniser skips a whole phrase, and stops after it where the words that follow do not make
the phrase longer. -/
theorem skip_append {category : Category} {phrase : List Word}
    (h : Derives .all category phrase) {rest : List Word} (hends : Ends category rest) :
    skip category (phrase ++ rest) = some rest := by
  induction h generalizing rest with
  | expression _ hmore ihfirst ihmore =>
    rw [skip_expression, List.append_assoc,
      ihfirst (endsOperand_moreOperands (begins_of_derives hmore) hends.1)]
    exact ihmore hends
  | noMore => exact skip_moreOperands_of_ends hends.2
  | oneMore hbinary _ hmore ihfirst ihmore =>
    rw [List.cons_append, skip_moreOperands_cons, if_pos hbinary, List.append_assoc,
      ihfirst (endsOperand_moreOperands (begins_of_derives hmore) hends.1)]
    exact ihmore hends
  | signed hsign _ ih =>
    rw [List.cons_append, skip_operand_cons, if_pos hsign]
    exact ih hends
  | unsigned hvalue hafter ihvalue ihafter =>
    have hprimary := ihvalue (ends_primary_suffixes (begins_of_derives hafter) hends)
    obtain ⟨first, tail, rfl, -, hunsigned⟩ := begins_of_derives hvalue
    rw [List.append_assoc, List.cons_append, skip_operand_cons, if_neg hunsigned,
      ← List.cons_append, hprimary]
    exact ihafter hends
  | literal hkind =>
    rw [List.singleton_append, skip_primary_cons]
    rcases hkind with hkind | hkind | hkind <;> rw [hkind]
  | name hkind =>
    rw [List.singleton_append, skip_primary_cons, hkind]
    exact skipOptional_of_ends hends
  | call hkind hvalues ih =>
    rw [List.cons_append, skip_primary_cons]
    rcases hkind with hkind | hkind <;> rw [hkind]
    · exact (skipOptional_arguments (begins_of_derives hvalues) rest).trans (ih trivial)
    · exact ih trivial
  | @group opening closing inner hopening _ hclosing ih =>
    have hexpression : skip .expression (inner ++ closing :: rest) = some (closing :: rest) :=
      ih (ends_expression_delimiter (Or.inl hclosing))
    rw [List.cons_append, skip_primary_cons, hopening, List.append_assoc, List.singleton_append,
      hexpression]
    exact if_pos hclosing
  | noSuffix => exact skip_suffixes_of_ends hends
  | member hdot hmember hafter ih =>
    rw [List.cons_append, List.cons_append, skip_suffixes_cons_cons, if_pos hdot, if_pos hmember,
      skipOptional_of_ends (ends_primary_suffixes (begins_of_derives hafter) hends)]
    exact ih hends
  | memberCall _ hdot hmember hvalues _ ihvalues ihafter =>
    rw [List.cons_append, List.cons_append, skip_suffixes_cons_cons, if_pos hdot, if_pos hmember,
      List.append_assoc, skipOptional_arguments (begins_of_derives hvalues), ihvalues trivial]
    exact ihafter hends
  | @cast colon type after _ hcolon htype _ ih =>
    have hdot : ¬ colon.kind = .trail := by
      rw [hcolon]
      decide
    rw [List.cons_append, List.cons_append, skip_suffixes_cons_cons, if_neg hdot,
      if_pos ⟨hcolon, htype⟩]
    exact ih hends
  | noArguments hopening hclosing =>
    rw [List.cons_append, List.singleton_append, skip_arguments_cons_cons, if_pos hopening,
      if_pos hclosing]
  | @arguments opening list hopening hlist ih =>
    have hskip : skip .argumentList (list ++ rest) = some rest := ih trivial
    obtain ⟨first, tail, rfl, hfirst⟩ := begins_of_derives hlist
    rw [List.cons_append, List.cons_append, skip_arguments_cons_cons, if_pos hopening,
      if_neg hfirst]
    exact hskip
  | @lastArgument value closing _ hclosing ih =>
    have hexpression : skip .expression (value ++ closing :: rest) = some (closing :: rest) :=
      ih (ends_expression_delimiter (Or.inl hclosing))
    rw [skip_argumentList, List.append_assoc, List.singleton_append, hexpression]
    exact if_pos hclosing
  | @oneArgument value list comma _ hcomma _ ihvalue ihlist =>
    have hexpression : skip .expression (value ++ comma :: (list ++ rest)) =
        some (comma :: (list ++ rest)) :=
      ihvalue (ends_expression_delimiter (Or.inr hcomma))
    have hclosing : ¬ comma.kind = .closing := by
      rw [hcomma]
      decide
    rw [skip_argumentList, List.append_assoc, List.cons_append, hexpression]
    exact (if_neg hclosing).trans ((if_pos hcomma).trans (ihlist trivial))

/-! ### Whole phrases -/

/-- A recogniser skips words to their end exactly when they are a phrase. -/
theorem skip_eq_nil_iff (category : Category) (words : List Word) :
    skip category words = some [] ↔ Derives .all category words := by
  constructor
  · intro h
    obtain ⟨phrase, rfl, hphrase⟩ := sound words category [] h
    rwa [List.append_nil]
  · intro h
    have hends : Ends category [] := by
      cases category <;> simp [Ends, EndsOperand]
    have hskip := skip_append h hends
    rwa [List.append_nil] at hskip

theorem isExpression_iff (words : List Word) :
    isExpression words = true ↔ Derives .all .expression words := by
  rw [← skip_eq_nil_iff, isExpression, skip]
  rcases expression words with _ | ⟨_ | ⟨word, rest⟩, h⟩ <;> simp

theorem isArguments_iff (words : List Word) :
    isArguments words = true ↔ Derives .all .arguments words := by
  rw [← skip_eq_nil_iff, isArguments, skip]
  rcases arguments words with _ | ⟨_ | ⟨word, rest⟩, h⟩ <;> simp

end LineScript.Statement
