import LineScript.Proofs.Word.Enclosed

/-!
Scanning in place. `Cursor.next?` finds the first word of a line without taking the line apart: it
moves a place along the line, reads the byte there and copies slices. Each read and each slice is
checked. A read outside the line has no result, and neither has a slice whose ends are not places
of the line in order. The scanner always has a result nevertheless, and it is the word that `scan`
gives, with a place from which on the line is what `scan` leaves. Two of its parts pass over the
byte after a backslash without a look at it, and the one that follows a group may come to stand
one place past the end of the line, from where it has to go back.
-/

set_option autoImplicit false
set_option relaxedAutoImplicit false

namespace LineScript

open Bytes

namespace Cursor

/-- The bytes from one place of a line up to another. -/
def slice? (line : Bytes) (start stop : Nat) : Option Bytes :=
  if start ≤ stop ∧ stop ≤ line.length then some ((line.take stop).drop start) else none

/-- The byte at a place. -/
def read? (bytes : Bytes) (place : Nat) : Option UInt8 :=
  bytes[place]?

/-- The byte at a place, or zero where the line has ended. -/
def peek? (line : Bytes) (place : Nat) : Option UInt8 :=
  if place < line.length then read? line place else some 0

/-- The first place from the given one on whose byte does not have the property. -/
def past? (property : UInt8 → Bool) (line : Bytes) (place : Nat) : Option Nat :=
  if place < line.length then do
    let byte ← read? line place
    if property byte then past? property line (place + 1) else some place
  else some place
termination_by line.length - place

/-- A word whose text is a slice of the line, with the place after it. -/
def word? (kind : Kind) (line : Bytes) (start stop place : Nat) : Option (Word × Nat) :=
  (slice? line start stop).map fun text ↦ (⟨kind, text⟩, place)

/-- A name from the given place on. -/
def name? (kind : Kind) (line : Bytes) (place : Nat) : Option (Word × Nat) := do
  let stop ← past? isNameByte line place
  let text ← slice? line place stop
  some (⟨kind, lower text⟩, stop)

/-- Quoted text from a place after its opening quote on, with `taken` before that place. -/
def text? (line : Bytes) (place : Nat) (taken : Bytes) : Option (Word × Nat) :=
  if place < line.length then do
    let byte ← read? line place
    if byte = 0x22 then some (⟨.text, taken⟩, place + 1)
    else if byte = 0x5C then
      if place + 1 < line.length then do
        let hidden ← read? line (place + 1)
        text? line (place + 2) (taken ++ [hidden])
      else some (⟨.text, taken⟩, place + 1)
    else text? line (place + 1) (taken ++ [byte])
  else some (⟨.text, taken⟩, place)
termination_by line.length - place

/-- The parentheses open after one more byte outside of quoted text. -/
def depthAfter (depth : Nat) (byte : UInt8) : Nat :=
  if byte = 0x28 then depth + 1 else if byte = 0x29 then depth - 1 else depth

/-- The group that starts at `start`, followed from a place in it on, with the parentheses open
there and whether quoted text is. After a backslash in quoted text the place may be past the end
of the line. -/
def group? (line : Bytes) (start place depth : Nat) (inText : Bool) : Option (Word × Nat) :=
  if place < line.length then do
    let byte ← read? line place
    if inText then
      if byte = 0x5C then group? line start (place + 2) depth true
      else group? line start (place + 1) depth (byte != 0x22)
    else if byte = 0x29 ∧ depth = 0 then word? .group line start place (place + 1)
    else group? line start (place + 1) (depthAfter depth byte) (byte == 0x22)
  else word? .group line start (min place line.length) (min place line.length)
termination_by line.length - place

/-- The numeral that starts at `start`, followed from a place in it on, where a point may have
been passed. -/
def numeral? (line : Bytes) (start place : Nat) (passed : Bool) : Option (Word × Nat) :=
  if place < line.length then do
    let byte ← read? line place
    if byte = 0x2E then
      if passed then word? .numeric line start place place
      else numeral? line start (place + 1) true
    else if isDigit byte then numeral? line start (place + 1) passed
    else word? .numeric line start place place
  else word? .numeric line start place place
termination_by line.length - place

/-- The operator at the given place, or the end of the line where two slashes stand there. -/
def operator? (line : Bytes) (place : Nat) (byte : UInt8) : Option (Word × Nat) := do
  let second ← peek? line (place + 1)
  if byte = 0x2F ∧ second = 0x2F then some (.empty, line.length)
  else if isOperatorByte second then word? .operator line place (place + 2) (place + 2)
  else word? .operator line place (place + 1) (place + 1)

/-- The character at the given place, which starts no word. -/
def character? (line : Bytes) (place : Nat) : Option (Word × Nat) := do
  let rest ← slice? line place line.length
  match Text.first? rest with
  | some (char, after) =>
    some (⟨.invalid, String.utf8EncodeChar char⟩, place + (rest.length - after.length))
  | none => some (⟨.invalid, replacement⟩, place + 1)

/-- The first word from a place of a line on, and the place after it. -/
def next? (line : Bytes) (place : Nat) : Option (Word × Nat) :=
  if place < line.length then do
    let byte ← read? line place
    match Lead.ofByte byte with
    | .space => next? line (place + 1)
    | .tab => some (.tab, place + 1)
    | .comma => some (.comma, place + 1)
    | .trail => some (.trail, place + 1)
    | .cast => some (.cast, place + 1)
    | .dollar => do
      let second ← peek? line (place + 1)
      if isNameStart second then name? .varname line (place + 1) else next? line (place + 1)
    | .atSign => do
      let second ← peek? line (place + 1)
      if isNameStart second then name? .funcname line (place + 1) else next? line (place + 1)
    | .quote => text? line (place + 1) []
    | .opening => group? line (place + 1) (place + 1) 0 false
    | .semicolon => some (.empty, line.length)
    | .operator => operator? line place byte
    | .digit => numeral? line place place false
    | .letter => name? .name line place
    | .other => character? line place
  else some (.empty, place)
termination_by line.length - place

/-! ### Places -/

/-- The cursor stands at a place of the line, and `rest` is left from there on. -/
structure Stands (line : Bytes) (place : Nat) (rest : Bytes) : Prop where
  inside : place ≤ line.length
  left : line.drop place = rest

/-- Walking along the line has a result: what was found, and a place where the cursor stands. -/
def Finds (line : Bytes) (found : Word × Bytes) (result : Option (Word × Nat)) : Prop :=
  ∃ place, result = some (found.1, place) ∧ Stands line place found.2

variable {line rest : Bytes} {place : Nat} {byte : UInt8}

theorem stands_start (line : Bytes) : Stands line 0 line :=
  ⟨Nat.zero_le _, rfl⟩

theorem stands_end (line : Bytes) : Stands line line.length [] :=
  ⟨Nat.le_refl _, List.drop_length⟩

theorem Stands.length_eq (h : Stands line place rest) : place + rest.length = line.length := by
  have := h.inside
  rw [← h.left, List.length_drop]
  omega

theorem Stands.eq_length (h : Stands line place []) : place = line.length :=
  h.length_eq

theorem Stands.lt_length (h : Stands line place (byte :: rest)) : place < line.length := by
  have := h.length_eq
  rw [List.length_cons] at this
  omega

theorem Stands.not_lt_length (h : Stands line place []) : ¬ place < line.length :=
  Nat.not_lt.mpr (Nat.le_of_eq h.eq_length.symm)

theorem Stands.read (h : Stands line place (byte :: rest)) : read? line place = some byte := by
  rw [read?, ← List.head?_drop, h.left, List.head?_cons]

theorem Stands.advance {taken : Bytes} (h : Stands line place (taken ++ rest)) :
    Stands line (place + taken.length) rest := by
  have hlength := h.length_eq
  rw [List.length_append] at hlength
  refine ⟨by omega, ?_⟩
  rw [← List.drop_drop, h.left, List.drop_left]

theorem Stands.succ (h : Stands line place (byte :: rest)) : Stands line (place + 1) rest := by
  have happend : Stands line place ([byte] ++ rest) := h
  exact happend.advance

theorem Stands.take_eq {taken : Bytes} (h : Stands line place rest) (hline : line = taken ++ rest) :
    line.take place = taken := by
  have hsplit : line.take place ++ rest = taken ++ rest := by
    rw [← hline, ← h.left, List.take_append_drop]
  exact List.append_cancel_right hsplit

/-- What the cursor passes can be copied. -/
theorem Stands.slice {taken : Bytes} (h : Stands line place (taken ++ rest)) :
    slice? line place (place + taken.length) = some taken := by
  rw [slice?, if_pos ⟨Nat.le_add_right _ _, h.advance.inside⟩, List.drop_take, h.left,
    Nat.add_sub_cancel_left, List.take_left]

theorem Stands.word {taken : Bytes} {kind : Kind} {next : Nat}
    (h : Stands line place (taken ++ rest)) :
    word? kind line place (place + taken.length) next = some (⟨kind, taken⟩, next) := by
  rw [word?, h.slice]
  rfl

theorem Stands.peek (h : Stands line place rest) :
    peek? line place = some (rest.head?.getD 0) := by
  cases rest with
  | nil => rw [peek?, if_neg h.not_lt_length]; rfl
  | cons byte rest => rw [peek?, if_pos h.lt_length, h.read]; rfl

/-! ### Names, operators and characters -/

theorem past?_eq (property : UInt8 → Bool) (h : Stands line place rest) :
    past? property line place = some (place + (rest.takeWhile property).length) := by
  induction rest generalizing place with
  | nil => rw [past?, if_neg h.not_lt_length]; rfl
  | cons byte rest ih =>
    rw [past?, if_pos h.lt_length, h.read, Option.bind_eq_bind, Option.bind_some]
    by_cases hbyte : property byte = true
    · rw [if_pos hbyte, ih h.succ, List.takeWhile_cons_of_pos hbyte, List.length_cons,
        Nat.add_right_comm]
      rfl
    · rw [if_neg hbyte, List.takeWhile_cons_of_neg hbyte]
      rfl

theorem finds_name (kind : Kind) (h : Stands line place rest) :
    Finds line (nameWord kind rest) (name? kind line place) := by
  have happend : Stands line place (rest.takeWhile isNameByte ++ rest.dropWhile isNameByte) := by
    rwa [List.takeWhile_append_dropWhile]
  refine ⟨place + (rest.takeWhile isNameByte).length, ?_, happend.advance⟩
  rw [name?, past?_eq isNameByte h, Option.bind_eq_bind, Option.bind_some, happend.slice]
  rfl

theorem finds_operator (h : Stands line place (byte :: rest)) :
    Finds line (operatorWord byte rest) (operator? line place byte) := by
  have hone : Stands line place ([byte] ++ rest) := h
  rw [operator?, h.succ.peek, Option.bind_eq_bind, Option.bind_some]
  cases rest with
  | nil =>
    have hzero : ¬ (byte = 0x2F ∧ (0 : UInt8) = 0x2F) := by simp
    exact ⟨place + 1, (if_neg hzero).trans hone.word, h.succ⟩
  | cons second rest =>
    have htwo : Stands line place ([byte, second] ++ rest) := h
    rw [operatorWord, List.head?_cons, Option.getD_some]
    by_cases hcomment : byte = 0x2F ∧ second = 0x2F
    · rw [if_pos hcomment, if_pos hcomment]
      exact ⟨line.length, rfl, stands_end line⟩
    · rw [if_neg hcomment, if_neg hcomment]
      by_cases hsecond : isOperatorByte second = true
      · rw [if_pos hsecond, if_pos hsecond]
        exact ⟨place + 2, htwo.word, h.succ.succ⟩
      · rw [if_neg hsecond, if_neg hsecond]
        exact ⟨place + 1, hone.word, h.succ⟩

theorem finds_character (h : Stands line place (byte :: rest)) :
    Finds line
      (match Text.first? (byte :: rest) with
        | some (char, after) => (⟨.invalid, String.utf8EncodeChar char⟩, after)
        | none => (⟨.invalid, replacement⟩, rest))
      (character? line place) := by
  have hslice : slice? line place line.length = some (byte :: rest) := by
    have happend : Stands line place ((byte :: rest) ++ []) := by rwa [List.append_nil]
    rw [← h.length_eq]
    exact happend.slice
  rw [character?, hslice, Option.bind_eq_bind, Option.bind_some]
  cases hfirst : Text.first? (byte :: rest) with
  | none => exact ⟨place + 1, rfl, h.succ⟩
  | some found =>
    obtain ⟨char, after⟩ := found
    refine ⟨_, rfl, ?_⟩
    rw [Text.eq_encode_append_of_first? hfirst] at h ⊢
    rw [List.length_append, Nat.add_sub_cancel]
    exact h.advance

/-! ### Quoted text and groups -/

theorem text?_eq (taken : Bytes) (h : Stands line place (byte :: rest)) :
    text? line place taken =
      if byte = 0x22 then some (⟨.text, taken⟩, place + 1)
      else if byte = 0x5C then
        match rest with
        | [] => some (⟨.text, taken⟩, place + 1)
        | hidden :: _ => text? line (place + 2) (taken ++ [hidden])
      else text? line (place + 1) (taken ++ [byte]) := by
  rw [text?, if_pos h.lt_length, h.read, Option.bind_eq_bind, Option.bind_some]
  cases rest with
  | nil => rw [if_neg h.succ.not_lt_length]
  | cons hidden rest => rw [if_pos h.succ.lt_length, h.succ.read]; rfl

theorem finds_text (taken : Bytes) (h : Stands line place rest) :
    Finds line (⟨.text, taken ++ (quotedText rest).1⟩, (quotedText rest).2)
      (text? line place taken) := by
  induction rest using quotedText_induction generalizing place taken with
  | nil =>
    refine ⟨place, ?_, h⟩
    rw [text?, if_neg h.not_lt_length, quotedText, List.append_nil]
  | quote rest =>
    refine ⟨place + 1, ?_, h.succ⟩
    rw [text?_eq taken h, if_pos rfl, quotedText, List.append_nil]
  | cutShort =>
    refine ⟨place + 1, ?_, h.succ⟩
    rw [text?_eq taken h, if_neg (by decide), if_pos rfl, quotedText, List.append_nil]
  | escape byte rest ih =>
    have hrest := ih (taken ++ [byte]) h.succ.succ
    rw [List.append_assoc] at hrest
    rw [text?_eq taken h, if_neg (by decide), if_pos rfl, quotedText_escape]
    exact hrest
  | other byte rest hquote hescape ih =>
    have hrest := ih (taken ++ [byte]) h.succ
    rw [List.append_assoc] at hrest
    rw [text?_eq taken h, if_neg hquote, if_neg hescape, quotedText_cons hquote hescape]
    exact hrest

/-- How far the cursor is ahead of the bytes that count: it has passed one that a backslash hides
before that byte counts. -/
def ahead : Quoting → Nat
  | .hiding => 1
  | _ => 0

theorem group?_inside {start depth : Nat} (h : Stands line place (byte :: rest)) :
    group? line start place depth true =
      group? line start (place + 1 + ahead (Quoting.step .inside byte)) depth
        (Quoting.step .inside byte != .outside) := by
  rw [group?, if_pos h.lt_length, h.read, Option.bind_eq_bind, Option.bind_some, if_pos rfl,
    Quoting.step]
  by_cases hescape : byte = 0x5C
  · rw [if_pos hescape, if_pos hescape]
    rfl
  · rw [if_neg hescape, if_neg hescape]
    by_cases hquote : byte = 0x22
    · rw [if_pos hquote, hquote]
      rfl
    · rw [if_neg hquote, bne_iff_ne.mpr hquote]
      rfl

theorem group?_outside {start depth : Nat} (h : Stands line place (byte :: rest)) :
    group? line start place depth false =
      if byte = 0x29 ∧ depth = 0 then word? .group line start place (place + 1)
      else
        group? line start (place + 1 + ahead (Quoting.step .outside byte)) (depthAfter depth byte)
          (Quoting.step .outside byte != .outside) := by
  rw [group?, if_pos h.lt_length, h.read, Option.bind_eq_bind, Option.bind_some,
    if_neg Bool.false_ne_true, Quoting.step]
  by_cases hquote : byte = 0x22
  · rw [if_pos hquote, hquote]
    rfl
  · rw [if_neg hquote, beq_eq_false_iff_ne.mpr hquote]
    rfl

/-- At the end of the line and past it the group is all that stands there. -/
theorem group?_end {start depth : Nat} {inText : Bool} {taken : Bytes}
    (hstart : Stands line start taken) (h : line.length ≤ place) :
    group? line start place depth inText = some (⟨.group, taken⟩, line.length) := by
  have happend : Stands line start (taken ++ []) := by rwa [List.append_nil]
  rw [group?, if_neg (Nat.not_lt.mpr h), Nat.min_eq_right h, ← hstart.length_eq]
  exact happend.word

theorem step?_outside {depth : Nat} (h : ¬ (byte = 0x29 ∧ depth = 0)) :
    Nesting.step? ⟨depth, .outside⟩ byte =
      some ⟨depthAfter depth byte, Quoting.step .outside byte⟩ := by
  simp only [Nesting.step?, depthAfter, true_and]
  by_cases hopening : byte = 0x28
  · rw [if_pos hopening, if_pos hopening]
  · rw [if_neg hopening, if_neg hopening]
    by_cases hclosing : byte = 0x29
    · rw [if_pos hclosing, if_pos hclosing]
      cases depth with
      | zero => exact absurd ⟨hclosing, rfl⟩ h
      | succ depth => rfl
    · rw [if_neg hclosing, if_neg hclosing]

/-- A group is followed byte by byte. Where a backslash was the last byte, the cursor has passed
the next one already, or the end of the line. -/
theorem finds_group {start : Nat} (taken : Bytes) (depth : Nat) (quoting : Quoting)
    (hstart : Stands line start (taken ++ rest)) :
    Finds line
      (⟨.group, taken ++ (enclosed ⟨depth, quoting⟩ rest).1⟩, (enclosed ⟨depth, quoting⟩ rest).2)
      (group? line start (start + taken.length + ahead quoting) depth
        (quoting != .outside)) := by
  -- One byte moves from what is left to what is taken, and the quoting follows it. A hidden byte
  -- moves without a step of the cursor.
  induction rest generalizing taken depth quoting with
  | nil =>
    rw [List.append_nil] at hstart
    have hpast : line.length ≤ start + taken.length + ahead quoting := by
      rw [← hstart.length_eq]
      exact Nat.le_add_right _ _
    refine ⟨line.length, ?_, stands_end line⟩
    rw [group?_end hstart hpast, enclosed, List.append_nil]
  | cons byte rest ih =>
    have hplace := hstart.advance
    have hnext : ∀ (depth : Nat) (quoting : Quoting),
        Finds line
          (⟨.group, taken ++ byte :: (enclosed ⟨depth, quoting⟩ rest).1⟩,
            (enclosed ⟨depth, quoting⟩ rest).2)
          (group? line start (start + taken.length + 1 + ahead quoting) depth
            (quoting != .outside)) := by
      intro depth quoting
      have happend : Stands line start ((taken ++ [byte]) ++ rest) := by
        rwa [List.append_assoc]
      have hrest := ih (taken ++ [byte]) depth quoting happend
      rwa [List.append_assoc, List.length_append, ← Nat.add_assoc] at hrest
    cases quoting with
    | outside =>
      by_cases hclosing : byte = 0x29 ∧ depth = 0
      · have hword := (group?_outside hplace).trans ((if_pos hclosing).trans hstart.word)
        obtain ⟨rfl, rfl⟩ := hclosing
        have hcut : enclosed ⟨0, .outside⟩ (0x29 :: rest) = ([], rest) := rfl
        rw [hcut, List.append_nil]
        exact ⟨start + taken.length + 1, hword, hplace.succ⟩
      · rw [enclosed_cons (step?_outside hclosing)]
        exact ((group?_outside hplace).trans (if_neg hclosing)).symm ▸ hnext _ _
    | inside =>
      rw [enclosed_cons_quoted (by decide)]
      exact (group?_inside hplace).symm ▸ hnext depth _
    | _ =>
      rw [enclosed_cons_quoted (by decide)]
      exact hnext depth .inside

/-! ### Numerals -/

theorem numeral?_eq {start : Nat} {passed : Bool} (h : Stands line place (byte :: rest)) :
    numeral? line start place passed =
      if byte = 0x2E then
        if passed then word? .numeric line start place place
        else numeral? line start (place + 1) true
      else if isDigit byte then numeral? line start (place + 1) passed
      else word? .numeric line start place place := by
  rw [numeral?, if_pos h.lt_length, h.read, Option.bind_eq_bind, Option.bind_some]

/-- Digits are passed, whether or not a point was. -/
theorem numeral?_digits {start : Nat} (taken : Bytes) (passed : Bool)
    (hstart : Stands line start (taken ++ rest)) :
    numeral? line start (start + taken.length) passed =
      numeral? line start (start + (taken ++ rest.takeWhile isDigit).length) passed := by
  induction rest generalizing taken with
  | nil => rw [List.takeWhile_nil, List.append_nil]
  | cons byte rest ih =>
    by_cases hbyte : isDigit byte = true
    · have hpoint : byte ≠ 0x2E := by
        rintro rfl
        exact absurd hbyte (by decide)
      have happend : Stands line start ((taken ++ [byte]) ++ rest) := by
        rwa [List.append_assoc]
      have hrest := ih (taken ++ [byte]) happend
      rw [List.append_assoc] at hrest
      rw [numeral?_eq hstart.advance, if_neg hpoint, if_pos hbyte,
        List.takeWhile_cons_of_pos hbyte]
      rwa [List.length_append, ← Nat.add_assoc] at hrest
    · rw [List.takeWhile_cons_of_neg hbyte, List.append_nil]

/-- The digits end the numeral unless a point follows and none was passed. -/
theorem finds_digits {start : Nat} {passed : Bool} (taken : Bytes)
    (hstart : Stands line start (taken ++ rest))
    (hpoint : 0x2E ∈ (rest.dropWhile isDigit).head? → passed = true) :
    Finds line (⟨.numeric, taken ++ rest.takeWhile isDigit⟩, rest.dropWhile isDigit)
      (numeral? line start (start + taken.length) passed) := by
  rw [numeral?_digits taken passed hstart]
  have hsplit : Stands line start
      ((taken ++ rest.takeWhile isDigit) ++ rest.dropWhile isDigit) := by
    rwa [List.append_assoc, List.takeWhile_append_dropWhile]
  have hplace := hsplit.advance
  refine ⟨_, ?_, hplace⟩
  have hdigit := List.head?_dropWhile_not isDigit rest
  cases hrest : rest.dropWhile isDigit with
  | nil =>
    rw [hrest] at hplace
    rw [numeral?, if_neg hplace.not_lt_length]
    exact hsplit.word
  | cons byte after =>
    rw [hrest] at hplace hpoint hdigit
    rw [numeral?_eq hplace, if_neg (Bool.eq_false_iff.mp hdigit), hsplit.word]
    by_cases hbyte : byte = 0x2E
    · rw [if_pos hbyte, if_pos (hpoint (congrArg some hbyte))]
    · rw [if_neg hbyte]

theorem finds_numeral (h : Stands line place rest) :
    Finds line (⟨.numeric, (numeral rest).1⟩, (numeral rest).2)
      (numeral? line place place false) := by
  by_cases hpoint : 0x2E ∈ (rest.dropWhile isDigit).head?
  · obtain ⟨after, hafter⟩ := List.head?_eq_some_iff.mp hpoint
    have hwhole : Stands line place (rest.takeWhile isDigit ++ 0x2E :: after) := by
      rwa [← hafter, List.takeWhile_append_dropWhile]
    have hpassed : Stands line place ((rest.takeWhile isDigit ++ [0x2E]) ++ after) := by
      rwa [List.append_assoc]
    have hstep : numeral? line place place false =
        numeral? line place (place + (rest.takeWhile isDigit ++ [0x2E]).length) true := by
      rw [List.length_append, ← Nat.add_assoc]
      refine (numeral?_digits [] false h).trans ?_
      exact (numeral?_eq hwhole.advance).trans (if_pos rfl)
    have hfinds := finds_digits _ hpassed fun _ ↦ rfl
    rw [← hstep, List.append_assoc] at hfinds
    rw [numeral_of_point hafter]
    exact hfinds
  · rw [numeral_of_no_point hpoint]
    exact finds_digits [] h fun hmem ↦ absurd hmem hpoint

/-! ### The first word -/

/-- Scanning in place never leaves the line, and finds the word that `scan` finds. -/
theorem finds_next (h : Stands line place rest) : Finds line (scan rest) (next? line place) := by
  induction rest generalizing place with
  | nil => exact ⟨place, by rw [next?, if_neg h.not_lt_length]; rfl, h⟩
  | cons byte rest ih =>
    -- The zero that stands for the end of the line starts no name.
    have hname : isNameStart (rest.head?.getD 0) = rest.head?.any isNameStart := by
      cases rest <;> rfl
    rw [next?, if_pos h.lt_length, h.read, Option.bind_eq_bind, Option.bind_some, scan]
    cases hlead : Lead.ofByte byte with
    | space => exact ih h.succ
    | tab => exact ⟨place + 1, rfl, h.succ⟩
    | comma => exact ⟨place + 1, rfl, h.succ⟩
    | trail => exact ⟨place + 1, rfl, h.succ⟩
    | cast => exact ⟨place + 1, rfl, h.succ⟩
    | dollar =>
      simp only [h.succ.peek, Option.bind_some, hname]
      split
      · exact finds_name .varname h.succ
      · exact ih h.succ
    | atSign =>
      simp only [h.succ.peek, Option.bind_some, hname]
      split
      · exact finds_name .funcname h.succ
      · exact ih h.succ
    | quote => exact finds_text [] h.succ
    | opening => exact finds_group [] 0 .outside h.succ
    | semicolon => exact ⟨line.length, rfl, stands_end line⟩
    | operator => exact finds_operator h
    | digit => exact finds_numeral h
    | letter => exact finds_name .name h
    | other => exact finds_character h

end Cursor

end LineScript
