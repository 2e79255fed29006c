import LineScript.Calendar
import LineScript.Number.Literal
import LineScript.Text.Base64

/-!
What scalars mean: nothing, a boolean, an integer, another number, or their own text. Integers may
be written in four bases, a leading zero alone standing for base eight, and underscores in numbers
do not count. A scalar in quotes is a text, and a tag can ask for one of the meanings.
-/

set_option autoImplicit false
set_option relaxedAutoImplicit false

namespace LineScript.Yaml

open Bytes

-- Powers are those of the core library, also beside other instances.
attribute [local instance (2000)] instPowNat

/-- The meaning of a scalar. -/
inductive Scalar where
  | null
  | boolean (value : Bool)
  | integer (value : Int)
  | real (value : Number)
  | text (bytes : Bytes)
  deriving DecidableEq, Repr

/-- Whether a word is one of several. -/
def isAny (word : Bytes) (spellings : List String) : Bool :=
  spellings.any (utf8 · == word)

/-- The number of digits in a base, of which there must be one. -/
def digits? (base : Nat) (digits : Bytes) : Option Nat :=
  if !digits.isEmpty && digits.all (fun byte ↦ (hexValue? byte).any (· < base)) then
    some (Number.valueIn base digits)
  else none

/-- The number of an unsigned integer in the base that its beginning tells. -/
def natural? (text : Bytes) : Option Nat :=
  match text with
  | 0x30 :: mark :: rest =>
    match lowerByte mark with
    | 0x78 => digits? 16 rest
    | 0x6F => digits? 8 rest
    | 0x62 => digits? 2 rest
    | _ => digits? 8 (mark :: rest)
  | _ => digits? 10 text

/-- An integer with its sign, which the reader of the unsigned one does not see. -/
def signed? (unsigned? : Bytes → Option Nat) (text : Bytes) : Option Int :=
  match Number.unsigned text with
  | (some true, rest) => (unsigned? rest).map fun n ↦ -(n : Int)
  | (_, rest) => (unsigned? rest).map fun n ↦ (n : Int)

/-- An integer in base two or eight whose sign stands after the mark of the base. -/
def innerSigned? : Bytes → Option Int
  | 0x30 :: 0x62 :: rest => signed? (digits? 2) rest
  | 0x30 :: 0x6F :: rest => signed? (digits? 8) rest
  | _ => none

/-- Whether a text is a decimal with an optional point and exponent. -/
def isDecimal (text : Bytes) : Bool :=
  let unsigned := (Number.unsigned text).2
  let whole := unsigned.takeWhile isDigit
  let (fraction, rest) := match unsigned.dropWhile isDigit with
    | 0x2E :: rest => (rest.takeWhile isDigit, rest.dropWhile isDigit)
    | rest => ([], rest)
  let exponentFits := match rest with
    | [] => true
    | mark :: rest =>
      let digits := (Number.unsigned rest).2
      lowerByte mark == 0x65 && !digits.isEmpty && digits.all isDigit
  !(whole.isEmpty && fraction.isEmpty) && exponentFits

/-- The number of a scalar that starts with a digit or a sign. Integers have 64 bits, one of them
for the sign where there is one, and beyond them a decimal is a number that is no integer. -/
def number? (text : Bytes) : Option Scalar :=
  let text := Number.digitsOf text
  let isSigned := (Number.unsigned text).1.isSome
  let inRange (integer : Int) (isSigned : Bool) : Bool :=
    -(2 ^ (63 : Nat)) ≤ integer && integer < if isSigned then 2 ^ (63 : Nat) else 2 ^ (64 : Nat)
  match (signed? natural? text).filter (inRange · isSigned) with
  | some integer => some (.integer integer)
  | none =>
    if isDecimal text then (Number.read? text).map .real
    else ((innerSigned? text).filter (inRange · true)).map .integer

/-- The meaning of a scalar without quotes. -/
def Scalar.ofPlain (text : Bytes) : Scalar :=
  if isAny text ["", "~", "null", "Null", "NULL"] then .null
  else if isAny text ["true", "True", "TRUE"] then .boolean true
  else if isAny text ["false", "False", "FALSE"] then .boolean false
  else if isAny text [".nan", ".NaN", ".NAN"] then .real Number.nan
  else if isAny text [".inf", ".Inf", ".INF", "+.inf", "+.Inf", "+.INF"] then
    .real (Number.ofMagnitude false Number.infinity)
  else if isAny text ["-.inf", "-.Inf", "-.INF"] then
    .real (Number.ofMagnitude true Number.infinity)
  else
    match text.head? with
    | some 0x2E => ((Number.read? text).map .real).getD (.text text)
    | some first =>
      if isDigit first || first == 0x2B || first == 0x2D then (number? text).getD (.text text)
      else .text text
    | none => .null

/-! ### Tags -/

/-- What a tag asks for. -/
inductive Wish where
  | null
  | boolean
  | integer
  | real
  | moment
  | text
  /-- Bytes, which are written in 64 characters. -/
  | bytes
  /-- The fields of other mappings, where it tags a key. -/
  | merge
  | other
  deriving DecidableEq, Repr

/-- The name of a tag of the language itself. -/
def coreName? (tag : Bytes) : Option Bytes :=
  match (utf8 "tag:yaml.org,2002:").isPrefixOf? tag with
  | some name => some name
  | none => (utf8 "!!").isPrefixOf? tag

/-- What a tag asks for. An exclamation mark alone asks for nothing. -/
def Wish.ofTag? (tag : Bytes) : Option Wish :=
  if tag = utf8 "!" then none
  else
    some <| match coreName? tag with
      | none => .other
      | some name =>
        if name = utf8 "null" then .null
        else if name = utf8 "bool" then .boolean
        else if name = utf8 "int" then .integer
        else if name = utf8 "float" then .real
        else if name = utf8 "timestamp" then .moment
        else if name = utf8 "str" then .text
        else if name = utf8 "binary" then .bytes
        else if name = utf8 "merge" then .merge
        else .other

/-- Whether a text is a date, or a date and a time. A zone stands after a time if and only if a
letter stands before it. -/
def isMoment (text : Bytes) : Bool :=
  match Calendar.skipDate? 1 text with
  | none => false
  | some [] => true
  | some (mark :: time) =>
    if mark = 0x54 ∨ mark = 0x74 then (Calendar.skipTime? 1 time).any Calendar.isZone
    else mark == 0x20 && Calendar.skipTime? 1 (time.dropWhile (· == 0x20)) == some []

/-- The number nearest to an integer. -/
def numberOf (value : Int) : Number :=
  if value = 0 then Number.ofMagnitude false 0
  else Number.ofMagnitude (decide (value < 0)) (Number.nearest value.natAbs 1)

/-- The meaning of a text for which a tag asks. -/
def Scalar.wished? (wish : Wish) (text : Bytes) : Option Scalar :=
  match wish, ofPlain text with
  | .text, _ | .merge, _ | .other, _ => some (.text text)
  | .bytes, _ => (Text.base64? text).map .text
  | .moment, _ => if isMoment text then some (.text text) else none
  | .null, .null => some .null
  | .boolean, .boolean value => some (.boolean value)
  | .integer, .integer value => some (.integer value)
  | .real, .real value => some (.real value)
  | .real, .integer value => if value < 2 ^ (63 : Nat) then some (.real (numberOf value)) else none
  | _, _ => none

/-- The meaning of a scalar. -/
def Scalar.of? (isPlain : Bool) (tag : Option Bytes) (text : Bytes) : Option Scalar :=
  match tag.bind Wish.ofTag? with
  | some wish => wished? wish text
  | none => some (if isPlain then ofPlain text else .text text)

end LineScript.Yaml
