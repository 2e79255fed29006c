import LineScript.Bytes

/-!
Dates and times in digits: a date with hyphens between its parts, a time with colons and an
optional fraction of a second, and the distance of a zone. A part has one or two digits, the year
has four, and the caller says whether one digit is enough.
-/

set_option autoImplicit false
set_option relaxedAutoImplicit false

namespace LineScript.Calendar

open Bytes

/-- A year with 366 days. -/
def isLeap (year : Nat) : Bool :=
  year % 4 == 0 && (year % 100 != 0 || year % 400 == 0)

/-- The number of days in a month. -/
def daysIn (year month : Nat) : Nat :=
  if month = 2 then if isLeap year then 29 else 28
  else if month = 4 ∨ month = 6 ∨ month = 9 ∨ month = 11 then 30
  else 31

/-- Reads a number of `least` to `most` digits. -/
def digits? (least most : Nat) (text : Bytes) : Option (Nat × Bytes) :=
  let digits := (text.takeWhile isDigit).take most
  if digits.length < least then none else some (value digits, text.drop digits.length)

/-- Skips a byte that must be there. -/
def skip? (byte : UInt8) : Bytes → Option Bytes
  | [] => none
  | first :: rest => if first = byte then some rest else none

/-- Skips a date whose month and day have at least `least` digits. -/
def skipDate? (least : Nat) (text : Bytes) : Option Bytes := do
  let (year, text) ← digits? 4 4 text
  let (month, text) ← digits? least 2 (← skip? 0x2D text)
  let (day, text) ← digits? least 2 (← skip? 0x2D text)
  if 1 ≤ month ∧ month ≤ 12 ∧ 1 ≤ day ∧ day ≤ daysIn year month then some text else none

/-- Skips a fraction, if there is one: a point or a comma with digits after it. -/
def skipFraction (text : Bytes) : Bytes :=
  match text with
  | [] => []
  | mark :: rest =>
    if (mark = 0x2E ∨ mark = 0x2C) ∧ rest.head?.any isDigit then rest.dropWhile isDigit else text

/-- Skips a time whose parts have at least `least` digits. -/
def skipTime? (least : Nat) (text : Bytes) : Option Bytes := do
  let (hour, text) ← digits? least 2 text
  let (minute, text) ← digits? least 2 (← skip? 0x3A text)
  let (second, text) ← digits? least 2 (← skip? 0x3A text)
  if hour < 24 ∧ minute < 60 ∧ second < 60 then some (skipFraction text) else none

/-- Whether a text is a zone: the letter Z, or hours and minutes after a sign. -/
def isZone (text : Bytes) : Bool :=
  match text with
  | 0x5A :: rest => rest.isEmpty
  | sign :: rest =>
    let zone : Option Bytes := do
      let (hours, rest) ← digits? 2 2 rest
      let (minutes, rest) ← digits? 2 2 (← skip? 0x3A rest)
      if hours ≤ 24 ∧ minutes ≤ 60 then some rest else none
    (sign == 0x2B || sign == 0x2D) && zone == some []
  | [] => false

end LineScript.Calendar
