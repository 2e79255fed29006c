import LineScript.Statement.Shape

/-!
The grammar of statements. Expressions, argument lists and their parts are derived from categories,
and statements from what their first word allows. The grammar says nothing of where a reader stops:
that a phrase is followed by something else is no part of it.
-/

set_option autoImplicit false
set_option relaxedAutoImplicit false

namespace LineScript.Statement

/-! ### Expressions -/

/-- What may follow an operand apart from a plain member. -/
structure SuffixRules where
  /-- Members may be called. -/
  calls : Bool
  /-- Values may be cast to a type. -/
  casts : Bool

/-- Members with and without arguments, and casts. -/
def SuffixRules.all : SuffixRules := ⟨true, true⟩

/-- Members without arguments only. -/
def SuffixRules.membersOnly : SuffixRules := ⟨false, false⟩

/-- The kinds of phrases that expressions are made of. -/
inductive Category where
  | expression
  /-- Operators with an operand after each. -/
  | moreOperands
  | operand
  /-- An operand without signs and suffixes. -/
  | primary
  | suffixes
  /-- Expressions between parentheses with commas between them. -/
  | arguments
  /-- The same from the first expression on. -/
  | argumentList
  deriving DecidableEq, Repr

/-- The phrases of a category. -/
inductive Derives (rules : SuffixRules) : Category → List Word → Prop where
  | expression {first more : List Word} :
    Derives rules .operand first → Derives rules .moreOperands more →
    Derives rules .expression (first ++ more)
  | noMore : Derives rules .moreOperands []
  | oneMore {operator : Word} {first more : List Word} : operator.isBinary = true →
    Derives rules .operand first → Derives rules .moreOperands more →
    Derives rules .moreOperands (operator :: (first ++ more))
  | signed {sign : Word} {value : List Word} : sign.isUnary = true →
    Derives rules .operand value → Derives rules .operand (sign :: value)
  | unsigned {value after : List Word} :
    Derives rules .primary value → Derives rules .suffixes after →
    Derives rules .operand (value ++ after)
  | literal {word : Word} : word.kind = .numeric ∨ word.kind = .text ∨ word.kind = .varname →
    Derives rules .primary [word]
  | name {word : Word} : word.kind = .name → Derives rules .primary [word]
  | call {word : Word} {values : List Word} : word.kind = .name ∨ word.kind = .funcname →
    Derives rules .arguments values → Derives rules .primary (word :: values)
  | group {opening closing : Word} {inner : List Word} : opening.kind = .opening →
    Derives rules .expression inner → closing.kind = .closing →
    Derives rules .primary (opening :: (inner ++ [closing]))
  | noSuffix : Derives rules .suffixes []
  | member {dot name : Word} {after : List Word} : dot.kind = .trail → isMember name = true →
    Derives rules .suffixes after → Derives rules .suffixes (dot :: name :: after)
  | memberCall {dot name : Word} {values after : List Word} : rules.calls = true →
    dot.kind = .trail → isMember name = true → Derives rules .arguments values →
    Derives rules .suffixes after → Derives rules .suffixes (dot :: name :: (values ++ after))
  | cast {colon type : Word} {after : List Word} : rules.casts = true → colon.kind = .cast →
    type.kind = .name → Derives rules .suffixes after →
    Derives rules .suffixes (colon :: type :: after)
  | noArguments {opening closing : Word} : opening.kind = .opening → closing.kind = .closing →
    Derives rules .arguments [opening, closing]
  | arguments {opening : Word} {list : List Word} : opening.kind = .opening →
    Derives rules .argumentList list → Derives rules .arguments (opening :: list)
  | lastArgument {value : List Word} {closing : Word} : Derives rules .expression value →
    closing.kind = .closing → Derives rules .argumentList (value ++ [closing])
  | oneArgument {value list : List Word} {comma : Word} : Derives rules .expression value →
    comma.kind = .comma → Derives rules .argumentList list →
    Derives rules .argumentList (value ++ comma :: list)

/-! ### Parameters -/

/-- Typed names with commas between them and a closing parenthesis. -/
inductive ParameterList : List Word → Prop where
  | last {name colon type closing : Word} : name.kind = .varname → colon.kind = .cast →
    type.isValueType = true → closing.kind = .closing →
    ParameterList [name, colon, type, closing]
  | more {name colon type comma : Word} {list : List Word} : name.kind = .varname →
    colon.kind = .cast → type.isValueType = true → comma.kind = .comma → ParameterList list →
    ParameterList (name :: colon :: type :: comma :: list)

/-- Typed names between parentheses with commas between them. -/
inductive Parameters : List Word → Prop where
  | none {opening closing : Word} : opening.kind = .opening → closing.kind = .closing →
    Parameters [opening, closing]
  | some {opening : Word} {list : List Word} : opening.kind = .opening → ParameterList list →
    Parameters (opening :: list)

/-! ### Statements -/

/-- What may follow a keyword. -/
inductive Follows (rules : SuffixRules) : Keyword → List Word → Prop where
  | file {file : Word} : file.kind = .text ∨ file.kind = .name → Follows rules .includeFile [file]
  | initAlone : Follows rules .initBlock []
  | tickAlone : Follows rules .tickBlock []
  | breakAlone : Follows rules .breakLoop []
  | nextAlone : Follows rules .nextTurn []
  | elseAlone : Follows rules .elseBranch []
  | period {unit amount : Word} :
    unit.isNamed (utf8 "frequency") = true ∨ unit.isNamed (utf8 "interval") = true →
    amount.isAmount = true → Follows rules .timer [unit, amount]
  | signature {name : Word} {parameters : List Word} : name.kind = .funcname →
    Parameters parameters → Follows rules .function (name :: parameters)
  | typedSignature {name colon type : Word} {parameters : List Word} : name.kind = .funcname →
    Parameters parameters → colon.kind = .cast → type.isValueType = true →
    Follows rules .function (name :: (parameters ++ [colon, type]))
  | inputSignature {dot amount : Word} {parameters : List Word} : dot.kind = .trail →
    amount.isAmount = true → Parameters parameters →
    Follows rules .input (dot :: amount :: parameters)
  | definition {name sign : Word} {value : List Word} : name.kind = .varname →
    isEquals sign = true → Derives rules .expression value →
    Follows rules .constant (name :: sign :: value)
  | storedType {shape name colon type : Word} :
    shape.isNamed (utf8 "var") = true ∨ shape.isNamed (utf8 "array") = true →
    name.kind = .varname → colon.kind = .cast → type.isValueType = true →
    Follows rules .storage [shape, name, colon, type]
  | initialValue {name sign : Word} {value : List Word} : name.kind = .varname →
    isEquals sign = true → Derives rules .expression value →
    Follows rules .variable (name :: sign :: value)
  | variableType {name colon type : Word} : name.kind = .varname → colon.kind = .cast →
    type.isValueType = true → Follows rules .variable [name, colon, type]
  | elementType {name colon type : Word} : name.kind = .varname → colon.kind = .cast →
    type.isValueType = true → Follows rules .array [name, colon, type]
  | copiedArray {name sign source : Word} : name.kind = .varname → isEquals sign = true →
    source.kind = .varname → Follows rules .array [name, sign, source]
  | outputCall {dot amount : Word} {values : List Word} : dot.kind = .trail →
    amount.isAmount = true → Derives rules .arguments values →
    Follows rules .output (dot :: amount :: values)
  | items {array opening item closing : Word} : array.kind = .varname →
    opening.kind = .opening → item.kind = .varname → closing.kind = .closing →
    Follows rules .forEach [array, opening, item, closing]
  | indexedItems {array opening item comma index closing : Word} : array.kind = .varname →
    opening.kind = .opening → item.kind = .varname → comma.kind = .comma →
    index.kind = .varname → closing.kind = .closing →
    Follows rules .forEach [array, opening, item, comma, index, closing]
  | turns {amount opening index closing : Word} : amount.isAmount = true →
    opening.kind = .opening → index.kind = .varname → closing.kind = .closing →
    Follows rules .repeatLoop [amount, opening, index, closing]
  | whileCondition {value : List Word} : Derives rules .expression value →
    Follows rules .whileLoop value
  | ifCondition {value : List Word} : Derives rules .expression value →
    Follows rules .ifBranch value
  | elseIfCondition {value : List Word} : Derives rules .expression value →
    Follows rules .elseIfBranch value
  | noResult : Follows rules .returnValue []
  | result {value : List Word} : Derives rules .expression value →
    Follows rules .returnValue value

/-- The words of a statement. -/
inductive IsStatement (rules : SuffixRules) : List Word → Prop where
  | keyword {word : Word} {keyword : Keyword} {rest : List Word} : word.kind = .name →
    word.text = keyword.spelling → Follows rules keyword rest → IsStatement rules (word :: rest)
  | assignment {target operator : Word} {value : List Word} : target.kind = .varname →
    operator.operatorClass? = some .assignment → Derives rules .expression value →
    IsStatement rules (target :: operator :: value)
  | counting {target operator : Word} : target.kind = .varname →
    operator.operatorClass? = some .suffix → IsStatement rules [target, operator]
  | memberAssignment {target dot member operator : Word} {value : List Word} :
    target.kind = .varname → dot.kind = .trail → member.isAmount = true →
    operator.operatorClass? = some .assignment → Derives rules .expression value →
    IsStatement rules (target :: dot :: member :: operator :: value)
  | memberCall {target dot member : Word} {values : List Word} : target.kind = .varname →
    dot.kind = .trail → member.kind = .name ∨ member.kind = .funcname →
    Derives rules .arguments values → IsStatement rules (target :: dot :: member :: values)
  | call {function : Word} {values : List Word} : function.kind = .funcname →
    Derives rules .arguments values → IsStatement rules (function :: values)

end LineScript.Statement
