import LineScript.Word.Basic

/-!
Operators and their precedence groups. Dots, colons and commas form groups of their own, and the
names `and` and `or` act as logical operators.
-/

set_option autoImplicit false
set_option relaxedAutoImplicit false

namespace LineScript

/-- The precedence groups, the tightest first. -/
inductive OperatorClass where
  | trail
  | cast
  | concat
  | suffix
  | not
  | product
  | sum
  | comparison
  | equality
  | and
  | or
  | assignment
  | comma
  deriving DecidableEq, Repr

namespace OperatorClass

/-- The place of a group in the order of precedence, counted from one. -/
def rank : OperatorClass → Nat
  | .trail => 1
  | .cast => 2
  | .concat => 3
  | .suffix => 4
  | .not => 5
  | .product => 6
  | .sum => 7
  | .comparison => 8
  | .equality => 9
  | .and => 10
  | .or => 11
  | .assignment => 12
  | .comma => 13

/-- The group at a place. -/
def ofRank? (rank : Nat) : Option OperatorClass :=
  match rank with
  | 1 => some .trail
  | 2 => some .cast
  | 3 => some .concat
  | 4 => some .suffix
  | 5 => some .not
  | 6 => some .product
  | 7 => some .sum
  | 8 => some .comparison
  | 9 => some .equality
  | 10 => some .and
  | 11 => some .or
  | 12 => some .assignment
  | 13 => some .comma
  | _ => none

/-- Whether an operator of the group joins two operands of an expression. -/
def isBinary : OperatorClass → Bool
  | .concat | .product | .sum | .comparison | .equality | .and | .or => true
  | _ => false

end OperatorClass

/-- The spellings of the operators with their groups. -/
def operatorTable : List (Bytes × OperatorClass) :=
  [(utf8 "&", .concat),
   (utf8 "++", .suffix), (utf8 "--", .suffix), (utf8 "!!", .suffix),
   (utf8 "!", .not),
   (utf8 "^", .product), (utf8 "%", .product), (utf8 "*", .product), (utf8 "/", .product),
   (utf8 "+", .sum), (utf8 "-", .sum),
   (utf8 "<", .comparison), (utf8 "<=", .comparison), (utf8 ">", .comparison),
   (utf8 ">=", .comparison),
   (utf8 "==", .equality), (utf8 "!=", .equality), (utf8 "<>", .equality),
   (utf8 "&&", .and),
   (utf8 "||", .or),
   (utf8 "=", .assignment), (utf8 "+=", .assignment), (utf8 "-=", .assignment),
   (utf8 "*=", .assignment), (utf8 "/=", .assignment), (utf8 "^=", .assignment),
   (utf8 "%=", .assignment), (utf8 "&=", .assignment)]

namespace Word

/-- The precedence group of a word that acts as an operator. -/
def operatorClass? (word : Word) : Option OperatorClass :=
  match word.kind with
  | .trail => some .trail
  | .cast => some .cast
  | .comma => some .comma
  | .name =>
    if word.text = utf8 "and" then some .and
    else if word.text = utf8 "or" then some .or
    else none
  | .operator => operatorTable.lookup word.text
  | _ => none

/-- Whether a word joins two operands. -/
def isBinary (word : Word) : Bool :=
  word.operatorClass?.any OperatorClass.isBinary

/-- Whether a word may stand before an operand. -/
def isUnary (word : Word) : Bool :=
  word.isOperator (utf8 "!") || word.isOperator (utf8 "-")

end Word

end LineScript
