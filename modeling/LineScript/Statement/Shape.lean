import LineScript.Diagnostic
import LineScript.Statement.Expression
import LineScript.Statement.Keyword

/-!
The shapes of statements. Each keyword fixes what may follow it, and lines may also start with a
variable that is assigned to, counted up or called on, or with a call. `violation?` finds the
first rule that the words of a line break. A rule on a word that is missing is not broken; what
is missing counts at the end, as too few words.
-/

set_option autoImplicit false
set_option relaxedAutoImplicit false

namespace LineScript.Statement

/-- The rules a statement can break. -/
inductive Violation where
  | tooFewWords
  | tooManyWords
  | unknownWord (text : Bytes)
  | callParentheses
  | callArguments
  | fileName (text : Bytes)
  | timerUnit
  | timerAmount
  | functionName
  | functionParentheses
  | functionParameters
  | functionResult
  | inputDot
  | inputNumber
  | inputParentheses
  | inputParameters
  | constantName
  | constantSign
  | constantValue
  | storageShape
  | storageName
  | storageType (text : Bytes)
  | storageValue
  | variableShape
  | assignedValue
  | arrayShape
  | arrayType (text : Bytes)
  | arrayValue
  | outputDot
  | outputNumber
  | outputParentheses
  | outputArguments
  | forEachArray
  | forEachParameters
  | repeatCount
  | repeatParameter
  | whileCondition
  | ifCondition
  | elseIfCondition
  | returnedValue
  | variableUse
  | memberCall
  | memberArguments
  deriving DecidableEq, Repr

/-- The wording of a broken rule. -/
def Violation.message : Violation → Bytes
  | .tooFewWords => utf8 "Too few words"
  | .tooManyWords => utf8 "Too many words"
  | .unknownWord _ => utf8 "Invalid word"
  | .callParentheses => utf8 <|
      "A function call must be followed by a set of parenthesis, " ++
      "optionally containing arguments"
  | .callArguments => utf8 "Invalid argument list after function call"
  | .fileName _ => utf8 "Invalid file name"
  | .timerUnit => utf8 "Second word must be either 'frequency' or 'interval'"
  | .timerAmount => utf8 "Third word must be either a literal number or a constant name"
  | .functionName => utf8 "Second word must be a valid function name starting with @"
  | .functionParentheses => utf8 <|
      "Function name must be followed by a set of parenthesis, " ++
      "optionally containing an argument list"
  | .functionParameters => utf8 "Invalid arguments in function declaration"
  | .functionResult => utf8 <|
      "The only thing that can follow a function's argument list is a " ++
      "colon and its return type, which must be either 'number' or 'text'"
  | .inputDot => utf8 "The input word must be followed by a dot and the input number"
  | .inputNumber => utf8 <|
      "The input number after the dot must be either a literal number or a " ++
      "constant name"
  | .inputParentheses => utf8 <|
      "Input number must be followed by a set of parenthesis, " ++
      "optionally containing an argument list"
  | .inputParameters => utf8 "Invalid arguments in input declaration"
  | .constantName => utf8 "Invalid constant name (must start with $)"
  | .constantSign => utf8 "Invalid const assignment"
  | .constantValue => utf8 "Invalid expression after const assignment"
  | .storageShape => utf8 "Second word must be either 'var' or 'array'"
  | .storageName => utf8 <|
      "Third word must be a variable name (starting with $) followed by a " ++
      "colon and the storage type (number or text)"
  | .storageType _ => utf8 "Invalid storage type"
  | .storageValue => utf8 "Cannot initialize storage values here"
  | .variableShape => utf8 <|
      "Second word must be a variable name (starting with $), and it must " ++
      "be followed either by a colon and its type (number or text) or an equal sign and an " ++
      "expression"
  | .assignedValue => utf8 "Invalid expression after var assignment"
  | .arrayShape => utf8 <|
      "Second word must be a variable name (starting with $) followed by " ++
      "either a colon and the array type (number or text) or an assignment to another array " ++
      "variable"
  | .arrayType _ => utf8 "Invalid array type"
  | .arrayValue => utf8 "Cannot initialize array values here"
  | .outputDot => utf8 "Output must be followed by a dot and the output number"
  | .outputNumber => utf8 <|
      "Output number must be either a literal number or a constant name " ++
      "starting with $"
  | .outputParentheses => utf8 <|
      "Output number must be followed by a set of parenthesis, " ++
      "optionally containing arguments"
  | .outputArguments => utf8 "Invalid argument list after output call"
  | .forEachArray => utf8 "Foreach must be followed by an array variable name starting with $"
  | .forEachParameters => utf8 <|
      "Foreach must be followed by an array name and a set of " ++
      "parenthesis containing one or two parameters (the item and optionally the index)"
  | .repeatCount => utf8 <|
      "Repeat must be followed by either a literal number or a variable name " ++
      "starting with $"
  | .repeatParameter => utf8 <|
      "Repeat must be followed by a number and a set of parenthesis " ++
      "containing one parameter (the index)"
  | .whileCondition => utf8 "While must be followed by a boolean expression"
  | .ifCondition => utf8 "If must be followed by a boolean expression"
  | .elseIfCondition => utf8 "Elseif must be followed by a boolean expression"
  | .returnedValue => utf8 <|
      "Return must be followed by nothing, an expression, a variable name " ++
      "or a literal value"
  | .variableUse => utf8 <|
      "A leading variable name must be followed either by a trailing " ++
      "function, an assignment or a suffix operator"
  | .memberCall => utf8 "Invalid expression after trailing function on var"
  | .memberArguments => utf8 "Invalid argument list after trailing function on var"

/-- The report of a broken rule, with the word that broke it where the rule is about one word. -/
def Violation.diagnostic (violation : Violation) : Diagnostic :=
  let base : Diagnostic := { category := .grammar, message := violation.message }
  match violation with
  | .unknownWord text | .fileName text => { base with subject := some text }
  | .storageType text | .arrayType text =>
    { base with subject := some text, detail := utf8 "it must be either 'number' or 'text'" }
  | _ => base

/-- Whether a word is there and is not as required. -/
def misses (word? : Option Word) (required : Word → Bool) : Bool :=
  word?.any fun word ↦ !required word

/-- The kind required of a word. -/
def hasKind (kind : Kind) (word : Word) : Bool :=
  word.kind == kind

/-- The assignment sign. -/
def isEquals (word : Word) : Bool :=
  word.isOperator (utf8 "=")

/-- The rule broken by a line that starts with a call, given what follows the function. -/
def callViolation? (rest : List Word) : Option Violation :=
  if misses rest[0]? (hasKind .opening) then some .callParentheses
  else if rest.length < 2 then some .tooFewWords
  else if isArguments rest then none
  else some .callArguments

/-- The rule broken by a line that starts with a variable and a dot, given what follows the
dot. -/
def memberViolation? : List Word → Option Violation
  | member :: next :: value :: rest =>
    match member.kind with
    | .numeric | .varname =>
      if next.operatorClass? = some .assignment ∧ isExpression (value :: rest) then none
      else some .assignedValue
    | .name | .funcname =>
      if next.kind ≠ .opening then some .memberCall
      else if isArguments (next :: value :: rest) then none
      else some .memberArguments
    | _ => some .assignedValue
  | _ => some .tooFewWords

/-- The rule broken by a line that starts with a variable, given what follows the variable. -/
def variableViolation? : List Word → Option Violation
  | [] => some .variableUse
  | word :: rest =>
    match word.operatorClass? with
    | some .assignment =>
      if rest.isEmpty then some .tooFewWords
      else if isExpression rest then none
      else some .assignedValue
    | some .suffix => if rest.isEmpty then none else some .tooManyWords
    | some .trail => memberViolation? rest
    | _ => some .variableUse

/-- The rule broken by a file to include. -/
def includeViolation? : List Word → Option Violation
  | [] => some .tooFewWords
  | file :: rest =>
    if file.kind ≠ .text ∧ file.kind ≠ .name then some (.fileName file.text)
    else if rest.isEmpty then none
    else some .tooManyWords

/-- The rule broken by what follows the keyword of a timer. -/
def timerViolation? (rest : List Word) : Option Violation :=
  let isUnit (word : Word) := word.isNamed (utf8 "frequency") || word.isNamed (utf8 "interval")
  if misses rest[0]? isUnit then some .timerUnit
  else if misses rest[1]? Word.isAmount then some .timerAmount
  else if 2 < rest.length then some .tooManyWords
  else if rest.length < 2 then some .tooFewWords
  else none

/-- The rule broken by the declaration of a function. -/
def functionViolation? (rest : List Word) : Option Violation :=
  if misses rest[0]? (hasKind .funcname) then some .functionName
  else if misses rest[1]? (hasKind .opening) then some .functionParentheses
  else if rest.length < 3 then some .tooFewWords
  else
    match parameters rest.tail with
    | none => some .functionParameters
    | some [] => none
    | some [colon, type] =>
      if colon.kind = .cast ∧ type.isValueType then none else some .functionResult
    | some _ => some .functionResult

/-- The rule broken by the declaration of an input. -/
def inputViolation? (rest : List Word) : Option Violation :=
  if misses rest[0]? (hasKind .trail) then some .inputDot
  else if misses rest[1]? Word.isAmount then some .inputNumber
  else if misses rest[2]? (hasKind .opening) then some .inputParentheses
  else if rest.length < 4 then some .tooFewWords
  else
    match parameters (rest.drop 2) with
    | none => some .inputParameters
    | some [] => none
    | some _ => some .tooManyWords

/-- The rule broken by the declaration of a constant. -/
def constantViolation? : List Word → Option Violation
  | name :: sign :: value :: rest =>
    if name.kind ≠ .varname then some .constantName
    else if !isEquals sign then some .constantSign
    else if isExpression (value :: rest) then none
    else some .constantValue
  | _ => some .tooFewWords

/-- The rule broken by the declaration of a storage variable or array. -/
def storageViolation? (rest : List Word) : Option Violation :=
  let isShape (word : Word) := word.isNamed (utf8 "var") || word.isNamed (utf8 "array")
  if misses rest[0]? isShape then some .storageShape
  else if misses rest[1]? (hasKind .varname) || misses rest[2]? (hasKind .cast) then
    some .storageName
  else
    match rest.drop 3 with
    | [] => some .tooFewWords
    | type :: more =>
      if !type.isValueType then some (.storageType type.text)
      else if more.head?.any isEquals then some .storageValue
      else if more.isEmpty then none
      else some .tooManyWords

/-- The rule broken by the declaration of a variable. -/
def declarationViolation? : List Word → Option Violation
  | name :: sign :: value :: rest =>
    if name.kind ≠ .varname then some .variableShape
    else if isEquals sign then
      if isExpression (value :: rest) then none else some .assignedValue
    else if sign.kind = .cast ∧ value.isValueType ∧ rest.isEmpty then none
    else some .variableShape
  | _ => some .variableShape

/-- The rule broken by the declaration of an array. -/
def arrayViolation? (rest : List Word) : Option Violation :=
  let isSign (word : Word) := word.kind == .cast || isEquals word
  if misses rest[0]? (hasKind .varname) || misses rest[1]? isSign then some .arrayShape
  else
    match rest with
    | _ :: sign :: value :: more =>
      if isEquals sign ∧ value.kind ≠ .varname then some .arrayShape
      else if sign.kind = .cast ∧ !value.isValueType then some (.arrayType value.text)
      else if more.head?.any isEquals then some .arrayValue
      else if more.isEmpty then none
      else some .tooManyWords
    | _ => some .tooFewWords

/-- The rule broken by a call of an output. -/
def outputViolation? (rest : List Word) : Option Violation :=
  if misses rest[0]? (hasKind .trail) then some .outputDot
  else if misses rest[1]? Word.isAmount then some .outputNumber
  else if misses rest[2]? (hasKind .opening) then some .outputParentheses
  else if rest.length < 4 then some .tooFewWords
  else if isArguments (rest.drop 2) then none
  else some .outputArguments

/-- The rule broken by a loop over an array. -/
def forEachViolation? (rest : List Word) : Option Violation :=
  let isDelimiter (word : Word) := word.kind == .closing || word.kind == .comma
  if misses rest[0]? (hasKind .varname) then some .forEachArray
  else if misses rest[1]? (hasKind .opening) || misses rest[2]? (hasKind .varname) ||
      misses rest[3]? isDelimiter || misses rest[4]? (hasKind .varname) ||
      misses rest[5]? (hasKind .closing) then
    some .forEachParameters
  else
    match rest.drop 3 with
    | [] => some .tooFewWords
    | delimiter :: more =>
      if delimiter.kind = .comma then
        if more.length < 2 then some .tooFewWords
        else if 2 < more.length then some .tooManyWords
        else none
      else if more.isEmpty then none
      else some .tooManyWords

/-- The rule broken by a counted loop. -/
def repeatViolation? (rest : List Word) : Option Violation :=
  if misses rest[0]? Word.isAmount then some .repeatCount
  else if misses rest[1]? (hasKind .opening) || misses rest[2]? (hasKind .varname) ||
      misses rest[3]? (hasKind .closing) then
    some .repeatParameter
  else if rest.length < 4 then some .tooFewWords
  else if 4 < rest.length then some .tooManyWords
  else none

/-- The rule broken by what follows a keyword. -/
def Keyword.violation? (keyword : Keyword) (rest : List Word) : Option Violation :=
  match keyword with
  | .includeFile => includeViolation? rest
  | .initBlock | .tickBlock | .breakLoop | .nextTurn | .elseBranch =>
    if rest.isEmpty then none else some .tooManyWords
  | .timer => timerViolation? rest
  | .function => functionViolation? rest
  | .input => inputViolation? rest
  | .constant => constantViolation? rest
  | .storage => storageViolation? rest
  | .variable => declarationViolation? rest
  | .array => arrayViolation? rest
  | .output => outputViolation? rest
  | .forEach => forEachViolation? rest
  | .repeatLoop => repeatViolation? rest
  | .whileLoop => if isExpression rest then none else some .whileCondition
  | .ifBranch => if isExpression rest then none else some .ifCondition
  | .elseIfBranch => if isExpression rest then none else some .elseIfCondition
  | .returnValue =>
    if rest.isEmpty ∨ isExpression rest then none else some .returnedValue

/-- The first rule that the words of a line break. Lines without words break none. -/
def violation? : List Word → Option Violation
  | [] => none
  | word :: rest =>
    match word.kind with
    | .varname => variableViolation? rest
    | .funcname => callViolation? rest
    | .name =>
      match Keyword.ofText? word.text with
      | some keyword => keyword.violation? rest
      | none => some (.unknownWord word.text)
    | _ => some (.unknownWord word.text)

end LineScript.Statement
