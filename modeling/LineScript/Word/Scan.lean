import LineScript.Word.Basic

/-!
Scanning takes the first word off a line. The first byte that is not skipped decides what kind
of word it is. Spaces are skipped, and so are dollar and at signs that no name follows; a
semicolon or two slashes start a comment, which ends the line. Names lose their capitals. A
parenthesised group is taken in one piece: `Nesting` follows the parentheses and the quoted text
inside it up to the parenthesis that closes it.
-/

set_option autoImplicit false
set_option relaxedAutoImplicit false

namespace LineScript

open Bytes

/-- What the first byte of a word says about it. -/
inductive Lead where
  | space
  | tab
  | comma
  | trail
  | cast
  | dollar
  | atSign
  | quote
  | opening
  | semicolon
  | operator
  | digit
  | letter
  | other
  deriving DecidableEq, Repr

/-- A byte that may occur in an operator. -/
def isOperatorByte (byte : UInt8) : Bool :=
  (utf8 "=+-*/%^><&|!~?").contains byte

/-- A byte that may start a name. -/
def isNameStart (byte : UInt8) : Bool :=
  isSmall byte || isCapital byte || byte == 0x5F

/-- A byte that may occur in a name. -/
def isNameByte (byte : UInt8) : Bool :=
  isNameStart byte || isDigit byte

/-- The role of a byte at the start of a word. -/
def Lead.ofByte (byte : UInt8) : Lead :=
  match byte with
  | 0x20 => .space
  | 0x09 => .tab
  | 0x2C => .comma
  | 0x2E => .trail
  | 0x3A => .cast
  | 0x24 => .dollar
  | 0x40 => .atSign
  | 0x22 => .quote
  | 0x28 => .opening
  | 0x3B => .semicolon
  | byte =>
    if isOperatorByte byte then .operator
    else if isDigit byte then .digit
    else if isNameStart byte then .letter
    else .other

/-- Whether quoted text is open, and whether a backslash has just hidden the next byte of it. -/
inductive Quoting where
  | outside
  | inside
  | hiding
  deriving DecidableEq, Repr

/-- The quoting after one more byte. -/
def Quoting.step (quoting : Quoting) (byte : UInt8) : Quoting :=
  match quoting with
  | .outside => if byte = 0x22 then .inside else .outside
  | .inside => if byte = 0x5C then .hiding else if byte = 0x22 then .outside else .inside
  | .hiding => .inside

/-- A place inside a line: the open parentheses and the quoting. -/
structure Nesting where
  depth : Nat
  quoting : Quoting
  deriving DecidableEq, Repr

/-- The place after one more byte, unless that byte is a closing parenthesis with none open. -/
def Nesting.step? (nesting : Nesting) (byte : UInt8) : Option Nesting :=
  let quoting := nesting.quoting.step byte
  if nesting.quoting = .outside ∧ byte = 0x28 then some ⟨nesting.depth + 1, quoting⟩
  else if nesting.quoting = .outside ∧ byte = 0x29 then
    match nesting.depth with
    | 0 => none
    | depth + 1 => some ⟨depth, quoting⟩
  else some ⟨nesting.depth, quoting⟩

/-- Cuts at the first closing parenthesis that nothing before it opens: what stands before it and
what follows it. Without one the whole line stands before it. -/
def enclosed (nesting : Nesting) : Bytes → Bytes × Bytes
  | [] => ([], [])
  | byte :: rest =>
    match nesting.step? byte with
    | none => ([], rest)
    | some nesting =>
      let (inner, after) := enclosed nesting rest
      (byte :: inner, after)

/-- Reads quoted text after its opening quote up to the closing one. A backslash is dropped and
the byte after it stands for itself. -/
def quotedText : Bytes → Bytes × Bytes
  | [] => ([], [])
  | 0x22 :: rest => ([], rest)
  | [0x5C] => ([], [])
  | 0x5C :: byte :: rest =>
    let (text, after) := quotedText rest
    (byte :: text, after)
  | byte :: rest =>
    let (text, after) := quotedText rest
    (byte :: text, after)

/-- Reads digits with at most one point among them. -/
def numeral (line : Bytes) : Bytes × Bytes :=
  let whole := line.takeWhile isDigit
  match line.dropWhile isDigit with
  | 0x2E :: rest => (whole ++ 0x2E :: rest.takeWhile isDigit, rest.dropWhile isDigit)
  | rest => (whole, rest)

/-- The character shown for a byte that is part of none. -/
def replacement : Bytes := [0xEF, 0xBF, 0xBD]

/-- The word of a name with the given kind, and the rest of the line. -/
def nameWord (kind : Kind) (line : Bytes) : Word × Bytes :=
  (⟨kind, lower (line.takeWhile isNameByte)⟩, line.dropWhile isNameByte)

/-- The word of an operator that starts with `byte`, or the end of the line where two slashes
start a comment. An operator has one or two bytes. -/
def operatorWord (byte : UInt8) : Bytes → Word × Bytes
  | [] => (⟨.operator, [byte]⟩, [])
  | second :: rest =>
    if byte = 0x2F ∧ second = 0x2F then (.empty, [])
    else if isOperatorByte second then (⟨.operator, [byte, second]⟩, rest)
    else (⟨.operator, [byte]⟩, second :: rest)

/-- The first word of a line and the rest of the line. At the end of a line and at a comment the
word is empty and nothing is left. -/
def scan : Bytes → Word × Bytes
  | [] => (.empty, [])
  | byte :: rest =>
    match Lead.ofByte byte with
    | .space => scan rest
    | .tab => (.tab, rest)
    | .comma => (.comma, rest)
    | .trail => (.trail, rest)
    | .cast => (.cast, rest)
    | .dollar => if rest.head?.any isNameStart then nameWord .varname rest else scan rest
    | .atSign => if rest.head?.any isNameStart then nameWord .funcname rest else scan rest
    | .quote =>
      let (text, after) := quotedText rest
      (⟨.text, text⟩, after)
    | .opening =>
      let (inner, after) := enclosed ⟨0, .outside⟩ rest
      (⟨.group, inner⟩, after)
    | .semicolon => (.empty, [])
    | .operator => operatorWord byte rest
    | .digit =>
      let (digits, after) := numeral (byte :: rest)
      (⟨.numeric, digits⟩, after)
    | .letter => nameWord .name (byte :: rest)
    | .other =>
      match Text.first? (byte :: rest) with
      | some (char, after) => (⟨.invalid, String.utf8EncodeChar char⟩, after)
      | none => (⟨.invalid, replacement⟩, rest)

/-! ### Progress -/

theorem length_dropWhile_le (property : UInt8 → Bool) (line : Bytes) :
    (line.dropWhile property).length ≤ line.length := by
  induction line with
  | nil => simp
  | cons byte rest ih =>
    rw [List.dropWhile_cons]
    split
    · simp only [List.length_cons]; omega
    · exact Nat.le_refl _

/-- The inside of a group and what follows it are no longer than what they are cut from. -/
theorem length_enclosed_le (nesting : Nesting) (line : Bytes) :
    (enclosed nesting line).1.length + (enclosed nesting line).2.length ≤ line.length := by
  induction line generalizing nesting with
  | nil => simp [enclosed]
  | cons byte rest ih =>
    unfold enclosed
    split
    · simp
    · rename_i next _
      have := ih next
      simp only [List.length_cons]
      omega

theorem length_quotedText_le (line : Bytes) : (quotedText line).2.length ≤ line.length := by
  fun_induction quotedText line <;> simp_all <;> omega

theorem length_numeral_lt (byte : UInt8) (rest : Bytes) (h : isDigit byte = true) :
    (numeral (byte :: rest)).2.length < (byte :: rest).length := by
  have hdrop : (byte :: rest).dropWhile isDigit = rest.dropWhile isDigit := by
    rw [List.dropWhile_cons, if_pos h]
  have hle := length_dropWhile_le isDigit rest
  unfold numeral
  rw [hdrop]
  split
  · rename_i after hafter
    have hlen := length_dropWhile_le isDigit after
    have : (0x2E :: after).length ≤ rest.length := hafter ▸ hle
    simp only [List.length_cons] at this ⊢
    omega
  · simp only [List.length_cons]
    omega

theorem length_operatorWord_le (byte : UInt8) (rest : Bytes) :
    (operatorWord byte rest).2.length ≤ rest.length := by
  unfold operatorWord
  repeat' split
  all_goals simp

/-- A digit leads a numeral. -/
theorem isDigit_of_lead {byte : UInt8} (h : Lead.ofByte byte = .digit) : isDigit byte = true := by
  unfold Lead.ofByte at h
  repeat' split at h
  all_goals simp_all

/-- A letter leads a name. -/
theorem isNameByte_of_lead {byte : UInt8} (h : Lead.ofByte byte = .letter) :
    isNameByte byte = true := by
  unfold Lead.ofByte at h
  repeat' split at h
  all_goals simp_all [isNameByte]

/-- Scanning a line that has a word leaves less of it. -/
theorem length_scan_lt (line : Bytes) (h : (scan line).1.kind ≠ .empty) :
    (scan line).2.length < line.length := by
  fun_induction scan line with
  | case1 => simp [Word.empty] at h
  | case2 byte rest hlead ih => have := ih h; simp only [List.length_cons]; omega
  | case3 | case4 | case5 | case6 => simp
  | case7 byte rest hlead hname =>
    have := length_dropWhile_le isNameByte rest
    simp only [nameWord, List.length_cons]; omega
  | case8 byte rest hlead hname ih => have := ih h; simp only [List.length_cons]; omega
  | case9 byte rest hlead hname =>
    have := length_dropWhile_le isNameByte rest
    simp only [nameWord, List.length_cons]; omega
  | case10 byte rest hlead hname ih => have := ih h; simp only [List.length_cons]; omega
  | case11 byte rest hlead text after hread =>
    have := length_quotedText_le rest
    simp_all only [List.length_cons]; omega
  | case12 byte rest hlead inner after hread =>
    have := length_enclosed_le ⟨0, .outside⟩ rest
    simp_all only [List.length_cons]; omega
  | case13 => simp [Word.empty] at h
  | case14 byte rest hlead =>
    have := length_operatorWord_le byte rest
    simp only [List.length_cons]; omega
  | case15 byte rest hlead digits after hread =>
    have := length_numeral_lt byte rest (isDigit_of_lead hlead)
    simp_all only
  | case16 byte rest hlead =>
    have := length_dropWhile_le isNameByte rest
    simp only [nameWord, List.dropWhile_cons, isNameByte_of_lead hlead, if_true, List.length_cons]
    omega
  | case17 byte rest hlead char after hread => exact Text.length_lt_of_first? hread
  | case18 byte rest hlead hread => simp

end LineScript
