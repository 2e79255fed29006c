import LineScript.Proofs.Statement.LongestPhrase

/-!
Recognising in place. The searches of this module find where a phrase ends without taking the words
apart: they move a place along the words and read the word there. Nothing in their definition makes
them end. Each search starts others, and the place where it goes on is the one that those have
found, so the searches are given a depth, the number of them that may be under way at a time, and
one that would need more has no answer. Neither has one that reads outside of the words.

With four for each word that is left and four more they all have an answer nevertheless (`agrees`):
they find a place exactly where the recogniser of the phrase finds one, and the rest that the
recogniser leaves is what stands from that place on. What is found lies within the words, is a
phrase and the longest one, and the end of an argument list is told by its own words
(`searches_delimit_phrases`).
-/

set_option autoImplicit false
set_option relaxedAutoImplicit false

namespace LineScript.Statement

/-- A search along words: it may have no answer, and the answer may be that nothing is found. -/
abbrev Search := OptionT Option

/-- The search that has no answer. -/
def unanswered : Search Nat :=
  OptionT.lift none

/-- The word at a place. -/
def readAt (words : List Word) (place : Nat) : Search Word :=
  OptionT.lift words[place]?

/-- The place after a closing parenthesis. -/
def closingEnd (words : List Word) (place : Nat) : Search Nat :=
  if place < words.length then do
    let word ← readAt words place
    if word.kind = .closing then pure (place + 1) else failure
  else failure

mutual

/-- The place after the operand at a place. -/
def operandEnd (words : List Word) (depth place : Nat) : Search Nat :=
  match depth with
  | 0 => unanswered
  | depth + 1 =>
    if place < words.length then do
      let word ← readAt words place
      if word.isUnary then operandEnd words depth (place + 1)
      else do
        let after ← primaryEnd words depth place word
        suffixesEnd words depth after
    else failure

/-- The place after an operand without its signs, members and casts, given its first word. -/
def primaryEnd (words : List Word) (depth place : Nat) (word : Word) : Search Nat :=
  match depth with
  | 0 => unanswered
  | depth + 1 =>
    match word.kind with
    | .numeric | .text | .varname => pure (place + 1)
    | .name => optionalArgumentsEnd words depth (place + 1)
    | .funcname => argumentsEnd words depth (place + 1)
    | .opening => do
      let after ← expressionEnd words depth (place + 1)
      closingEnd words after
    | _ => failure

/-- The place after the members and casts that follow an operand. -/
def suffixesEnd (words : List Word) (depth place : Nat) : Search Nat :=
  match depth with
  | 0 => unanswered
  | depth + 1 =>
    if place + 1 < words.length then do
      let word ← readAt words place
      let next ← readAt words (place + 1)
      if word.kind = .trail then
        if isMember next then do
          let after ← optionalArgumentsEnd words depth (place + 2)
          suffixesEnd words depth after
        else failure
      else if word.kind = .cast ∧ next.kind = .name then suffixesEnd words depth (place + 2)
      else pure place
    else pure place

/-- The place after an argument list, or the same place where no parenthesis announces one. -/
def optionalArgumentsEnd (words : List Word) (depth place : Nat) : Search Nat :=
  match depth with
  | 0 => unanswered
  | depth + 1 =>
    if place < words.length then do
      let word ← readAt words place
      if word.kind = .opening then argumentsEnd words depth place else pure place
    else pure place

/-- The place after expressions between parentheses with commas between them. -/
def argumentsEnd (words : List Word) (depth place : Nat) : Search Nat :=
  match depth with
  | 0 => unanswered
  | depth + 1 =>
    if place < words.length then do
      let word ← readAt words place
      if word.kind = .opening then
        if place + 1 < words.length then do
          let next ← readAt words (place + 1)
          if next.kind = .closing then pure (place + 2)
          else argumentListEnd words depth (place + 1)
        else failure
      else failure
    else failure

/-- The place after at least one expression, the commas between them and the closing
parenthesis. -/
def argumentListEnd (words : List Word) (depth place : Nat) : Search Nat :=
  match depth with
  | 0 => unanswered
  | depth + 1 =>
    if place < words.length then do
      let after ← expressionEnd words depth place
      delimiterEnd words depth after
    else failure

/-- The place after what follows an argument: a closing parenthesis, or a comma and more
arguments. -/
def delimiterEnd (words : List Word) (depth place : Nat) : Search Nat :=
  match depth with
  | 0 => unanswered
  | depth + 1 =>
    if place < words.length then do
      let word ← readAt words place
      if word.kind = .closing then pure (place + 1)
      else if word.kind = .comma then argumentListEnd words depth (place + 1)
      else failure
    else failure

/-- The place after the expression at a place. -/
def expressionEnd (words : List Word) (depth place : Nat) : Search Nat :=
  match depth with
  | 0 => unanswered
  | depth + 1 => do
    let after ← operandEnd words depth place
    moreOperandsEnd words depth after

/-- The place after binary operators with an operand after each. -/
def moreOperandsEnd (words : List Word) (depth place : Nat) : Search Nat :=
  match depth with
  | 0 => unanswered
  | depth + 1 =>
    if place < words.length then do
      let word ← readAt words place
      if word.isBinary then do
        let after ← operandEnd words depth (place + 1)
        moreOperandsEnd words depth after
      else pure place
    else pure place

end

/-! ### Places -/

/-- From a place on, `rest` is left of the words. -/
def Stands (words : List Word) (place : Nat) (rest : List Word) : Prop :=
  ∃ before, words = before ++ rest ∧ place = before.length

section Places

variable {words rest : List Word} {place : Nat} {word : Word}

theorem stands_drop (h : place ≤ words.length) : Stands words place (words.drop place) :=
  ⟨words.take place, (List.take_append_drop place words).symm, (List.length_take_of_le h).symm⟩

theorem Stands.length_eq (h : Stands words place rest) : place + rest.length = words.length := by
  obtain ⟨before, rfl, rfl⟩ := h
  exact List.length_append.symm

theorem Stands.lt_length (h : Stands words place (word :: rest)) : place < words.length := by
  have := h.length_eq
  rw [List.length_cons] at this
  omega

theorem Stands.not_lt_length (h : Stands words place []) : ¬ place < words.length :=
  Nat.not_lt.mpr (Nat.le_of_eq h.length_eq.symm)

theorem Stands.succ (h : Stands words place (word :: rest)) : Stands words (place + 1) rest := by
  obtain ⟨before, rfl, rfl⟩ := h
  exact ⟨before ++ [word], List.append_cons before word rest, by simp⟩

theorem Stands.readAt_bind {α : Type} (h : Stands words place (word :: rest))
    (next : Word → Search α) : readAt words place >>= next = next word := by
  obtain ⟨before, rfl, rfl⟩ := h
  have hread : (before ++ word :: rest)[before.length]? = some word := by
    rw [List.getElem?_append_right (Nat.le_refl _), Nat.sub_self, List.getElem?_cons_zero]
  rw [readAt, hread]
  rfl

end Places

/-- A search has an answer: nothing where the recogniser finds no phrase, and otherwise the place
from which on the words are what the recogniser leaves. -/
inductive Finds (words : List Word) : Option (List Word) → Search Nat → Prop where
  | nothing {search : Search Nat} : search.run = some none → Finds words none search
  | place {search : Search Nat} {place : Nat} {rest : List Word} :
    search.run = some (some place) → Stands words place rest → Finds words (some rest) search

section Searches

variable {words rest : List Word} {place : Nat} {left : Option (List Word)} {search : Search Nat}

theorem finds_failure (words : List Word) : Finds words none failure :=
  .nothing rfl

theorem Stands.finds (h : Stands words place rest) : Finds words (some rest) (pure place) :=
  .place rfl h

theorem Finds.of_run_eq {other : Search Nat} (h : Finds words left other)
    (hrun : search.run = other.run) : Finds words left search := by
  cases h with
  | nothing hother => exact .nothing (hrun.trans hother)
  | place hother hstands => exact .place (hrun.trans hother) hstands

theorem Finds.bind {more : List Word → Option (List Word)} {next : Nat → Search Nat}
    (h : Finds words left search)
    (hnext : ∀ rest place, left = some rest → Stands words place rest →
      Finds words (more rest) (next place)) : Finds words (left.bind more) (search >>= next) := by
  cases h with
  | nothing hrun =>
    refine .nothing ?_
    rw [OptionT.run_bind, hrun]
    rfl
  | @place _ place rest hrun hstands =>
    have hbind : (search >>= next).run = (next place).run := by
      rw [OptionT.run_bind, hrun]
      rfl
    exact (hnext rest place rfl hstands).of_run_eq hbind

theorem Finds.run_eq (h : Finds words left search) :
    search.run = some (left.map fun rest ↦ words.length - rest.length) := by
  cases h with
  | nothing hrun => exact hrun
  | @place _ place rest hrun hstands =>
    rw [hrun, Option.map_some, ← hstands.length_eq, Nat.add_sub_cancel]

end Searches

/-! ### The searches agree with the recognisers -/

/-- With this depth, the searches find what the recognisers of their phrases find, as long as four
of them can be under way for each word that is left. What each asks for beyond that orders the
searches that start each other at the same place. -/
structure Agrees (words : List Word) (depth : Nat) : Prop where
  operand {place : Nat} {rest : List Word} : Stands words place rest →
    4 * rest.length + 1 < depth → Finds words (skip .operand rest) (operandEnd words depth place)
  primary {place : Nat} {word : Word} {tail : List Word} : Stands words place (word :: tail) →
    4 * tail.length + 4 < depth →
      Finds words (skip .primary (word :: tail)) (primaryEnd words depth place word)
  suffixes {place : Nat} {rest : List Word} : Stands words place rest →
    4 * rest.length < depth → Finds words (skip .suffixes rest) (suffixesEnd words depth place)
  optional {place : Nat} {rest : List Word} : Stands words place rest →
    4 * rest.length + 1 < depth →
      Finds words (skipOptional rest) (optionalArgumentsEnd words depth place)
  arguments {place : Nat} {rest : List Word} : Stands words place rest →
    4 * rest.length < depth → Finds words (skip .arguments rest) (argumentsEnd words depth place)
  argumentList {place : Nat} {rest : List Word} : Stands words place rest →
    4 * rest.length + 3 < depth →
      Finds words (skip .argumentList rest) (argumentListEnd words depth place)
  delimiter {place : Nat} {rest : List Word} : Stands words place rest →
    4 * rest.length < depth → Finds words (skipDelimiter rest) (delimiterEnd words depth place)
  expression {place : Nat} {rest : List Word} : Stands words place rest →
    4 * rest.length + 2 < depth →
      Finds words (skip .expression rest) (expressionEnd words depth place)
  moreOperands {place : Nat} {rest : List Word} : Stands words place rest →
    4 * rest.length < depth →
      Finds words (skip .moreOperands rest) (moreOperandsEnd words depth place)

theorem skip_nil {category : Category} (hmore : category ≠ .moreOperands)
    (hsuffixes : category ≠ .suffixes) : skip category [] = none := by
  rw [Option.eq_none_iff_forall_ne_some]
  intro rest hskip
  exact Nat.not_lt_zero _ (length_skip_lt hmore hsuffixes hskip)

theorem finds_closing {words rest : List Word} {place : Nat} (h : Stands words place rest) :
    Finds words (skipKind .closing rest) (closingEnd words place) := by
  rw [closingEnd]
  cases rest with
  | nil =>
    rw [if_neg h.not_lt_length]
    exact finds_failure words
  | cons word tail =>
    rw [if_pos h.lt_length, h.readAt_bind, skipKind]
    split_ifs
    · exact h.succ.finds
    · exact finds_failure words

section Agreement

variable {words rest : List Word} {depth place : Nat} (ih : Agrees words depth)

include ih

theorem finds_operand (h : Stands words place rest) (hdepth : 4 * rest.length < depth) :
    Finds words (skip .operand rest) (operandEnd words (depth + 1) place) := by
  rw [operandEnd]
  cases rest with
  | nil =>
    rw [if_neg h.not_lt_length, skip_nil (by decide) (by decide)]
    exact finds_failure words
  | cons word tail =>
    rw [List.length_cons] at hdepth
    rw [if_pos h.lt_length, h.readAt_bind, skip_operand_cons]
    split_ifs
    · exact ih.operand h.succ (by omega)
    · refine (ih.primary h (by omega)).bind fun after _ hskip hafter ↦ ?_
      have hshorter := length_skip_lt (by decide) (by decide) hskip
      rw [List.length_cons] at hshorter
      exact ih.suffixes hafter (by omega)

theorem finds_primary {word : Word} {tail : List Word} (h : Stands words place (word :: tail))
    (hdepth : 4 * tail.length + 3 < depth) :
    Finds words (skip .primary (word :: tail)) (primaryEnd words (depth + 1) place word) := by
  rw [primaryEnd, skip_primary_cons]
  cases word.kind with
  | numeric | text | varname => exact h.succ.finds
  | name => exact ih.optional h.succ (by omega)
  | funcname => exact ih.arguments h.succ (by omega)
  | opening =>
    exact (ih.expression h.succ (by omega)).bind fun _ _ _ hafter ↦ finds_closing hafter
  | _ => exact finds_failure words

theorem finds_suffixes (h : Stands words place rest) (hdepth : 4 * rest.length ≤ depth) :
    Finds words (skip .suffixes rest) (suffixesEnd words (depth + 1) place) := by
  have hlength := h.length_eq
  rw [suffixesEnd]
  rcases rest with _ | ⟨word, _ | ⟨next, tail⟩⟩
  · rw [if_neg (by simp only [List.length_nil] at hlength; omega), skip, suffixes]
    exact h.finds
  · rw [if_neg (by simp only [List.length_cons, List.length_nil] at hlength; omega), skip, suffixes]
    exact h.finds
  · simp only [List.length_cons] at hdepth
    rw [if_pos h.succ.lt_length, h.readAt_bind, h.succ.readAt_bind, skip_suffixes_cons_cons]
    split_ifs
    · refine (ih.optional h.succ.succ (by omega)).bind fun after _ hskip hafter ↦ ?_
      have hle := (suffix_of_skipOptional hskip).length_le
      exact ih.suffixes hafter (by omega)
    · exact finds_failure words
    · exact ih.suffixes h.succ.succ (by omega)
    · exact h.finds

theorem finds_optional (h : Stands words place rest) (hdepth : 4 * rest.length < depth) :
    Finds words (skipOptional rest) (optionalArgumentsEnd words (depth + 1) place) := by
  rw [optionalArgumentsEnd]
  cases rest with
  | nil =>
    rw [if_neg h.not_lt_length, skipOptional, optionalArguments]
    exact h.finds
  | cons word tail =>
    rw [if_pos h.lt_length, h.readAt_bind, skipOptional_cons]
    split_ifs
    · exact ih.arguments h hdepth
    · exact h.finds

theorem finds_arguments (h : Stands words place rest) (hdepth : 4 * rest.length ≤ depth) :
    Finds words (skip .arguments rest) (argumentsEnd words (depth + 1) place) := by
  rw [argumentsEnd]
  rcases rest with _ | ⟨word, _ | ⟨next, tail⟩⟩
  · rw [if_neg h.not_lt_length, skip_nil (by decide) (by decide)]
    exact finds_failure words
  · rw [if_pos h.lt_length, h.readAt_bind, if_neg h.succ.not_lt_length, ite_self, skip, arguments]
    exact finds_failure words
  · rw [List.length_cons] at hdepth
    rw [if_pos h.lt_length, h.readAt_bind, if_pos h.succ.lt_length, h.succ.readAt_bind,
      skip_arguments_cons_cons]
    split_ifs
    · exact h.succ.succ.finds
    · exact ih.argumentList h.succ (by omega)
    · exact finds_failure words

theorem finds_argumentList (h : Stands words place rest) (hdepth : 4 * rest.length + 2 < depth) :
    Finds words (skip .argumentList rest) (argumentListEnd words (depth + 1) place) := by
  rw [argumentListEnd]
  cases rest with
  | nil =>
    rw [if_neg h.not_lt_length, skip_nil (by decide) (by decide)]
    exact finds_failure words
  | cons word tail =>
    rw [if_pos h.lt_length, skip_argumentList]
    refine (ih.expression h hdepth).bind fun after _ hskip hafter ↦ ?_
    have hshorter := length_skip_lt (by decide) (by decide) hskip
    exact ih.delimiter hafter (by omega)

theorem finds_delimiter (h : Stands words place rest) (hdepth : 4 * rest.length ≤ depth) :
    Finds words (skipDelimiter rest) (delimiterEnd words (depth + 1) place) := by
  rw [delimiterEnd]
  cases rest with
  | nil =>
    rw [if_neg h.not_lt_length, skipDelimiter]
    exact finds_failure words
  | cons delimiter tail =>
    rw [List.length_cons] at hdepth
    rw [if_pos h.lt_length, h.readAt_bind, skipDelimiter]
    split_ifs
    · exact h.succ.finds
    · exact ih.argumentList h.succ (by omega)
    · exact finds_failure words

theorem finds_expression (h : Stands words place rest) (hdepth : 4 * rest.length + 1 < depth) :
    Finds words (skip .expression rest) (expressionEnd words (depth + 1) place) := by
  rw [expressionEnd, skip_expression]
  refine (ih.operand h hdepth).bind fun after _ hskip hafter ↦ ?_
  have hshorter := length_skip_lt (by decide) (by decide) hskip
  exact ih.moreOperands hafter (by omega)

theorem finds_moreOperands (h : Stands words place rest) (hdepth : 4 * rest.length ≤ depth) :
    Finds words (skip .moreOperands rest) (moreOperandsEnd words (depth + 1) place) := by
  rw [moreOperandsEnd]
  cases rest with
  | nil =>
    rw [if_neg h.not_lt_length, skip, moreOperands]
    exact h.finds
  | cons word tail =>
    rw [List.length_cons] at hdepth
    rw [if_pos h.lt_length, h.readAt_bind, skip_moreOperands_cons]
    split_ifs
    · refine (ih.operand h.succ (by omega)).bind fun after _ hskip hafter ↦ ?_
      have hshorter := length_skip_lt (by decide) (by decide) hskip
      exact ih.moreOperands hafter (by omega)
    · exact h.finds

end Agreement

/-- By induction on the depth: a search starts others with one less, and what it asks of its own
depth is more than what each of them asks, since they stand further on or come before it in the
order. -/
theorem agrees (words : List Word) (depth : Nat) : Agrees words depth := by
  induction depth with
  | zero => constructor <;> exact fun _ hdepth ↦ absurd hdepth (Nat.not_lt_zero _)
  | succ depth ih =>
    exact {
      operand := fun h hdepth ↦ finds_operand ih h (by omega)
      primary := fun h hdepth ↦ finds_primary ih h (by omega)
      suffixes := fun h hdepth ↦ finds_suffixes ih h (by omega)
      optional := fun h hdepth ↦ finds_optional ih h (by omega)
      arguments := fun h hdepth ↦ finds_arguments ih h (by omega)
      argumentList := fun h hdepth ↦ finds_argumentList ih h (by omega)
      delimiter := fun h hdepth ↦ finds_delimiter ih h (by omega)
      expression := fun h hdepth ↦ finds_expression ih h (by omega)
      moreOperands := fun h hdepth ↦ finds_moreOperands ih h (by omega) }

/-! ### Searches from any place -/

/-- How many searches are under way at a time at most, from a place on. -/
def depthFrom (words : List Word) (start : Nat) : Nat :=
  4 * (words.length - start) + 4

/-- A search comes to an end and reads nothing outside of the words: it has the given result
whenever `depthFrom` searches may be under way, or more. -/
def Results (search : List Word → Nat → Nat → Search Nat) (words : List Word) (start : Nat)
    (found : Option Nat) : Prop :=
  ∀ depth, depthFrom words start ≤ depth → (search words depth start).run = some found

/-- The place after the phrase that a recogniser finds. -/
def placeAfter (category : Category) (words : List Word) (start : Nat) : Option Nat :=
  (skip category (words.drop start)).map fun rest ↦ words.length - rest.length

section Start

variable {words : List Word} {start depth : Nat}

/-- A search may also start past the end of the words, where `Stands` says nothing. -/
theorem finds_of_length_le {category : Category} (hmore : category ≠ .moreOperands)
    (hsuffixes : category ≠ .suffixes) (h : words.length ≤ start) (search : Search Nat) :
    Finds words (skip category (words.drop start))
      (if start < words.length then search else failure) := by
  rw [List.drop_of_length_le h, skip_nil hmore hsuffixes, if_neg (Nat.not_lt.mpr h)]
  exact finds_failure words

theorem finds_operandEnd (hdepth : 4 * (words.length - start) + 1 < depth) :
    Finds words (skip .operand (words.drop start)) (operandEnd words depth start) := by
  by_cases hstart : start ≤ words.length
  · rw [← List.length_drop] at hdepth
    exact (agrees words depth).operand (stands_drop hstart) hdepth
  · obtain ⟨depth, rfl⟩ := Nat.exists_eq_add_one_of_ne_zero (Nat.ne_zero_of_lt hdepth)
    rw [operandEnd]
    exact finds_of_length_le (by decide) (by decide) (Nat.le_of_not_le hstart) _

theorem finds_argumentsEnd (hdepth : 4 * (words.length - start) < depth) :
    Finds words (skip .arguments (words.drop start)) (argumentsEnd words depth start) := by
  by_cases hstart : start ≤ words.length
  · rw [← List.length_drop] at hdepth
    exact (agrees words depth).arguments (stands_drop hstart) hdepth
  · obtain ⟨depth, rfl⟩ := Nat.exists_eq_add_one_of_ne_zero (Nat.ne_zero_of_lt hdepth)
    rw [argumentsEnd]
    exact finds_of_length_le (by decide) (by decide) (Nat.le_of_not_le hstart) _

theorem finds_expressionEnd (hdepth : 4 * (words.length - start) + 2 < depth) :
    Finds words (skip .expression (words.drop start)) (expressionEnd words depth start) := by
  obtain ⟨depth, rfl⟩ := Nat.exists_eq_add_one_of_ne_zero (Nat.ne_zero_of_lt hdepth)
  rw [expressionEnd, skip_expression]
  refine (finds_operandEnd (by omega)).bind fun after _ hskip hafter ↦ ?_
  have hshorter := length_skip_lt (by decide) (by decide) hskip
  rw [List.length_drop] at hshorter
  exact (agrees words depth).moreOperands hafter (by omega)

end Start

theorem results_operandEnd (words : List Word) (start : Nat) :
    Results operandEnd words start (placeAfter .operand words start) := by
  intro depth hdepth
  rw [depthFrom] at hdepth
  exact (finds_operandEnd (by omega)).run_eq

theorem results_expressionEnd (words : List Word) (start : Nat) :
    Results expressionEnd words start (placeAfter .expression words start) := by
  intro depth hdepth
  rw [depthFrom] at hdepth
  exact (finds_expressionEnd (by omega)).run_eq

theorem results_argumentsEnd (words : List Word) (start : Nat) :
    Results argumentsEnd words start (placeAfter .arguments words start) := by
  intro depth hdepth
  rw [depthFrom] at hdepth
  exact (finds_argumentsEnd (by omega)).run_eq

/-! ### What is found -/

/-- What a place found from `start` on tells of the phrases of a category that begin there. -/
structure Delimits (category : Category) (words : List Word) (start : Nat) (found : Option Nat) :
    Prop where
  /-- It is further on, and within the words or at their end. -/
  bounded : ∀ stop ∈ found, start < stop ∧ stop ≤ words.length
  /-- The words up to it are a phrase. -/
  derives : ∀ stop ∈ found, Derives .all category (words.extract start stop)
  /-- The words up to a later place are none. -/
  longest : ∀ stop ∈ found, ∀ later, stop < later → later ≤ words.length →
    ¬ Derives .all category (words.extract start later)
  /-- It is the end of the words exactly when all of them are a phrase. -/
  whole : found = some words.length ↔ Derives .all category (words.drop start)

section Found

variable {category : Category} {words : List Word} {start stop : Nat}
  (hmore : category ≠ .moreOperands) (hsuffixes : category ≠ .suffixes)

include hmore hsuffixes

theorem exists_phrase_of_found (h : stop ∈ placeAfter category words start) :
    ∃ phrase rest, skip category (words.drop start) = some rest ∧
      words.drop start = phrase ++ rest ∧ Derives .all category phrase ∧ 0 < phrase.length ∧
      start + phrase.length = stop ∧ stop + rest.length = words.length := by
  obtain ⟨rest, hskip, rfl⟩ := Option.map_eq_some_iff.mp h
  have hshorter := length_skip_lt hmore hsuffixes hskip
  obtain ⟨phrase, hphrase, hderives⟩ := sound _ category rest hskip
  have hlength := congrArg List.length hphrase
  rw [hphrase, List.length_append] at hshorter
  rw [List.length_drop, List.length_append] at hlength
  exact ⟨phrase, rest, hskip, hphrase, hderives, by omega, by omega, by omega⟩

theorem delimits_placeAfter : Delimits category words start (placeAfter category words start) where
  bounded stop hstop := by
    obtain ⟨_, _, -, -, -, hpos, hstart, hlength⟩ := exists_phrase_of_found hmore hsuffixes hstop
    omega
  derives stop hstop := by
    obtain ⟨phrase, rest, -, hphrase, hderives, -, hstart, -⟩ :=
      exists_phrase_of_found hmore hsuffixes hstop
    rwa [List.extract_eq_take_drop, hphrase, List.take_left' (by omega)]
  longest stop hstop later hlater hle hderives := by
    obtain ⟨phrase, rest, hskip, -, -, -, hstart, hlength⟩ :=
      exists_phrase_of_found hmore hsuffixes hstop
    -- What is left after `stop` would be an end of what is left after `later`.
    rw [← List.take_append_drop (later - start) (words.drop start)] at hskip
    have hsuffix := (covers_of_derives hderives _ rest hskip).length_le
    rw [List.length_drop, List.length_drop] at hsuffix
    omega
  whole := by
    rw [← skip_eq_nil_iff]
    constructor
    · intro hend
      obtain ⟨phrase, rest, hskip, -, -, -, -, hlength⟩ :=
        exists_phrase_of_found hmore hsuffixes hend
      have hrest : rest = [] := List.eq_nil_of_length_eq_zero (by omega)
      rwa [← hrest]
    · intro hskip
      rw [placeAfter, hskip]
      rfl

end Found

/-- Parentheses tell where an argument list ends, so it is found whatever follows. -/
theorem placeAfter_arguments {words : List Word} {start stop : Nat} (hstop : stop ≤ words.length)
    (h : Derives .all .arguments (words.extract start stop)) :
    placeAfter .arguments words start = some stop := by
  have hskip := @skip_append _ _ h ((words.drop start).drop (stop - start)) trivial
  rw [List.extract_eq_take_drop, List.take_append_drop] at hskip
  obtain ⟨opening, next, tail, hphrase, -⟩ := begins_of_derives h
  have hlength := congrArg List.length hphrase
  rw [List.length_take, List.length_drop, List.length_cons] at hlength
  rw [placeAfter, hskip, Option.map_some, List.length_drop, List.length_drop]
  congr 1
  omega

/-- The searches for the end of an operand, an expression and an argument list have a result for all
words and all places to start from, the one that the recognisers in use give. A place that is found
is further on than the start and not past the end of the words, the words between the two are a
phrase, and no longer piece of the words from the start on is one. The end of an argument list
depends on no word but those of the list: it is as far on in any words that have the same ones from
some place on. -/
theorem searches_delimit_phrases (words : List Word) (start : Nat) :
    (Results operandEnd words start (placeAfter .operand words start) ∧
      Delimits .operand words start (placeAfter .operand words start)) ∧
    (Results expressionEnd words start (placeAfter .expression words start) ∧
      Delimits .expression words start (placeAfter .expression words start)) ∧
    (Results argumentsEnd words start (placeAfter .arguments words start) ∧
      Delimits .arguments words start (placeAfter .arguments words start)) ∧
    ∀ stop, Results argumentsEnd words start (some stop) → ∀ others place,
      others.extract place (place + (stop - start)) = words.extract start stop →
        Results argumentsEnd others place (some (place + (stop - start))) := by
  have harguments : Delimits .arguments words start (placeAfter .arguments words start) :=
    delimits_placeAfter (by decide) (by decide)
  refine ⟨⟨results_operandEnd words start, delimits_placeAfter (by decide) (by decide)⟩,
    ⟨results_expressionEnd words start, delimits_placeAfter (by decide) (by decide)⟩,
    ⟨results_argumentsEnd words start, harguments⟩, ?_⟩
  intro stop hresult others place hothers
  have hfound : stop ∈ placeAfter .arguments words start := by
    have hrun := results_argumentsEnd words start _ (Nat.le_refl _)
    rw [hresult _ (Nat.le_refl _)] at hrun
    exact (Option.some.inj hrun).symm
  obtain ⟨hstart, hstop⟩ := harguments.bounded stop hfound
  have hderives := harguments.derives stop hfound
  have hlength := congrArg List.length hothers
  simp only [List.length_take, List.length_drop] at hlength
  rw [← placeAfter_arguments (by omega) (hothers ▸ hderives)]
  exact results_argumentsEnd others place

-- Nothing is found where a dot has no member after it, although the words before it are a phrase.
example : (expressionEnd [⟨.varname, utf8 "a"⟩, ⟨.trail, utf8 "."⟩, ⟨.text, utf8 "b"⟩] 16 0).run =
    some none := by decide +kernel

end LineScript.Statement
