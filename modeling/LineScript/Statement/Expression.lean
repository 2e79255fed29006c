import LineScript.Word.Operator

/-!
Recognising expressions. A recogniser takes words and returns what follows the phrase at their
beginning, or nothing when no such phrase stands there. An expression is a chain of operands
joined by binary operators; an operand is a literal, a variable, a name, a call or an expression
in parentheses, with signs before it and members and casts after it. A recogniser takes as much
as it can and does not go back: a dot that no member follows makes the operand fail unless the
dot is the last word.
-/

set_option autoImplicit false
set_option relaxedAutoImplicit false

namespace LineScript.Statement

/-- What follows a phrase of at least one word. -/
abbrev Shorter (words : List Word) := { rest : List Word // rest.length < words.length }

/-- What follows a phrase that may be empty. -/
abbrev NoLonger (words : List Word) := { rest : List Word // rest.length ≤ words.length }

/-- A word that may follow a dot: a member name, a function, an index or a variable. -/
def isMember (word : Word) : Bool :=
  word.kind == .name || word.kind == .funcname || word.kind == .numeric || word.kind == .varname

mutual

/-- Skips one operand. -/
def operand (words : List Word) : Option (Shorter words) :=
  match words with
  | [] => none
  | word :: rest =>
    if word.isUnary then
      match operand rest with
      | some ⟨after, h⟩ => some ⟨after, by simp only [List.length_cons]; omega⟩
      | none => none
    else
      match primary (word :: rest) with
      | some ⟨after, h⟩ =>
        match suffixes after with
        | some ⟨last, hlast⟩ => some ⟨last, by omega⟩
        | none => none
      | none => none
termination_by (words.length, 1)

/-- Skips an operand without its signs, members and casts. -/
def primary (words : List Word) : Option (Shorter words) :=
  match words with
  | [] => none
  | word :: rest =>
    match word.kind with
    | .numeric | .text | .varname => some ⟨rest, by simp⟩
    | .name =>
      match optionalArguments rest with
      | some ⟨after, h⟩ => some ⟨after, by simp only [List.length_cons]; omega⟩
      | none => none
    | .funcname =>
      match arguments rest with
      | some ⟨after, h⟩ => some ⟨after, by simp only [List.length_cons]; omega⟩
      | none => none
    | .opening =>
      match expression rest with
      | some ⟨[], _⟩ => none
      | some ⟨word :: after, h⟩ =>
        if word.kind = .closing then
          some ⟨after, by simp only [List.length_cons] at h ⊢; omega⟩
        else none
      | none => none
    | _ => none
termination_by (words.length, 0)

/-- Skips the members and casts after an operand. -/
def suffixes (words : List Word) : Option (NoLonger words) :=
  match words with
  | [] => some ⟨[], Nat.le_refl _⟩
  | [word] => some ⟨[word], Nat.le_refl _⟩
  | word :: member :: rest =>
    if word.kind = .trail then
      if isMember member then
        match optionalArguments rest with
        | some ⟨after, h⟩ =>
          match suffixes after with
          | some ⟨last, hlast⟩ => some ⟨last, by simp only [List.length_cons]; omega⟩
          | none => none
        | none => none
      else none
    else if word.kind = .cast ∧ member.kind = .name then
      match suffixes rest with
      | some ⟨last, h⟩ => some ⟨last, by simp only [List.length_cons]; omega⟩
      | none => none
    else some ⟨word :: member :: rest, Nat.le_refl _⟩
termination_by (words.length, 0)

/-- Skips an argument list where an opening parenthesis announces one. -/
def optionalArguments (words : List Word) : Option (NoLonger words) :=
  match words with
  | [] => some ⟨[], Nat.le_refl _⟩
  | word :: rest =>
    if word.kind = .opening then
      match arguments (word :: rest) with
      | some ⟨after, h⟩ => some ⟨after, Nat.le_of_lt h⟩
      | none => none
    else some ⟨word :: rest, Nat.le_refl _⟩
termination_by (words.length, 1)

/-- Skips expressions between parentheses with commas between them. -/
def arguments (words : List Word) : Option (Shorter words) :=
  match words with
  | [] => none
  | [_] => none
  | word :: next :: rest =>
    if word.kind = .opening then
      if next.kind = .closing then some ⟨rest, by simp only [List.length_cons]; omega⟩
      else
        match argumentList (next :: rest) with
        | some ⟨after, h⟩ => some ⟨after, by simp only [List.length_cons] at h ⊢; omega⟩
        | none => none
    else none
termination_by (words.length, 0)

/-- Skips at least one expression, the commas between them and the closing parenthesis. -/
def argumentList (words : List Word) : Option (Shorter words) :=
  match expression words with
  | some ⟨[], _⟩ => none
  | some ⟨word :: rest, h⟩ =>
    if word.kind = .closing then some ⟨rest, by simp only [List.length_cons] at h; omega⟩
    else if word.kind = .comma then
      match argumentList rest with
      | some ⟨after, hafter⟩ => some ⟨after, by simp only [List.length_cons] at h; omega⟩
      | none => none
    else none
  | none => none
termination_by (words.length, 3)
decreasing_by
  · omega
  · simp only [List.length_cons] at h; omega

/-- Skips one expression. -/
def expression (words : List Word) : Option (Shorter words) :=
  match operand words with
  | some ⟨after, h⟩ =>
    match moreOperands after with
    | some ⟨last, hlast⟩ => some ⟨last, by omega⟩
    | none => none
  | none => none
termination_by (words.length, 2)

/-- Skips binary operators with an operand after each. -/
def moreOperands (words : List Word) : Option (NoLonger words) :=
  match words with
  | [] => some ⟨[], Nat.le_refl _⟩
  | word :: rest =>
    if word.isBinary then
      match operand rest with
      | some ⟨after, h⟩ =>
        match moreOperands after with
        | some ⟨last, hlast⟩ => some ⟨last, by simp only [List.length_cons]; omega⟩
        | none => none
      | none => none
    else some ⟨word :: rest, Nat.le_refl _⟩
termination_by (words.length, 0)

end

/-- Whether words form exactly one expression. -/
def isExpression (words : List Word) : Bool :=
  match expression words with
  | some ⟨[], _⟩ => true
  | _ => false

/-- Whether words form exactly one argument list. -/
def isArguments (words : List Word) : Bool :=
  match arguments words with
  | some ⟨[], _⟩ => true
  | _ => false

/-- Skips typed parameters, the commas between them and the closing parenthesis. -/
def parameterList : List Word → Option (List Word)
  | name :: colon :: type :: delimiter :: rest =>
    if name.kind = .varname ∧ colon.kind = .cast ∧ type.isValueType then
      if delimiter.kind = .closing then some rest
      else if delimiter.kind = .comma then parameterList rest
      else none
    else none
  | _ => none

/-- Skips typed parameters between parentheses with commas between them. -/
def parameters : List Word → Option (List Word)
  | word :: next :: rest =>
    if word.kind = .opening then
      if next.kind = .closing then some rest else parameterList (next :: rest)
    else none
  | _ => none

end LineScript.Statement
