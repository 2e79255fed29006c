import LineScript.Word.Tokenize
import LineScript.Proofs.Text.Pieces

/-!
The inside of a group. A line is inside a group when the parenthesis that opens the group stands
before it, and `cut` divides it at the parenthesis that closes the group. Dividing and scanning
commute: no word reaches across that parenthesis, because text in quotes is followed in the same
way by both, and every other word consists of bytes that are neither parentheses nor quotes.
-/

set_option autoImplicit false
set_option relaxedAutoImplicit false

namespace LineScript

/-- The part of a line before the parenthesis that closes the group it is in, and the part after
that parenthesis. -/
abbrev cut (line : Bytes) : Bytes × Bytes :=
  enclosed ⟨0, .outside⟩ line

/-! ### Runs -/

/-- The place after some bytes, unless one of them is a closing parenthesis with none open. -/
def Nesting.run? (nesting : Nesting) : Bytes → Option Nesting
  | [] => some nesting
  | byte :: rest => (nesting.step? byte).bind fun next ↦ next.run? rest

theorem Nesting.step?_eq_none_iff (nesting : Nesting) (byte : UInt8) :
    nesting.step? byte = none ↔ nesting = ⟨0, .outside⟩ ∧ byte = 0x29 := by
  obtain ⟨depth, quoting⟩ := nesting
  rw [step?]
  by_cases hopening : quoting = .outside ∧ byte = 0x28
  · rw [if_pos hopening, hopening.2]
    simp
  · rw [if_neg hopening]
    by_cases hclosing : quoting = .outside ∧ byte = 0x29
    · rw [if_pos hclosing, hclosing.1, hclosing.2]
      cases depth <;> simp
    · rw [if_neg hclosing]
      simp only [reduceCtorEq, mk.injEq, false_iff]
      exact fun h ↦ hclosing ⟨h.1.2, h.2⟩

/-- One more open parenthesis changes no step. -/
theorem Nesting.step?_deeper {depth depth' : Nat} {quoting quoting' : Quoting} {byte : UInt8}
    (h : Nesting.step? ⟨depth, quoting⟩ byte = some ⟨depth', quoting'⟩) :
    Nesting.step? ⟨depth + 1, quoting⟩ byte = some ⟨depth' + 1, quoting'⟩ := by
  simp only [step?] at h ⊢
  by_cases hopening : quoting = .outside ∧ byte = 0x28
  · rw [if_pos hopening] at h ⊢
    cases h
    rfl
  · rw [if_neg hopening] at h ⊢
    by_cases hclosing : quoting = .outside ∧ byte = 0x29
    · rw [if_pos hclosing] at h ⊢
      cases depth with
      | zero => cases h
      | succ depth =>
        cases h
        rfl
    · rw [if_neg hclosing] at h ⊢
      cases h
      rfl

theorem Nesting.run?_deeper {depth depth' : Nat} {quoting quoting' : Quoting} {bytes : Bytes}
    (h : Nesting.run? ⟨depth, quoting⟩ bytes = some ⟨depth', quoting'⟩) :
    Nesting.run? ⟨depth + 1, quoting⟩ bytes = some ⟨depth' + 1, quoting'⟩ := by
  induction bytes generalizing depth quoting with
  | nil =>
    cases h
    rfl
  | cons byte rest ih =>
    obtain ⟨⟨middle, between⟩, hstep, hrest⟩ := Option.bind_eq_some_iff.mp h
    rw [run?, step?_deeper hstep]
    exact ih hrest

theorem enclosed_append {nesting next : Nesting} {bytes : Bytes}
    (h : nesting.run? bytes = some next) (rest : Bytes) :
    enclosed nesting (bytes ++ rest) =
      (bytes ++ (enclosed next rest).1, (enclosed next rest).2) := by
  induction bytes generalizing nesting with
  | nil =>
    cases h
    rfl
  | cons byte bytes ih =>
    obtain ⟨middle, hstep, hrest⟩ := Option.bind_eq_some_iff.mp h
    rw [List.cons_append, enclosed, hstep]
    simp only [ih hrest, List.cons_append]

theorem enclosed_of_run? {nesting next : Nesting} {line : Bytes}
    (h : nesting.run? line = some next) : enclosed nesting line = (line, []) := by
  have happend := enclosed_append h []
  rw [List.append_nil, enclosed, List.append_nil] at happend
  exact happend

theorem enclosed_closing {nesting : Nesting} {inner : Bytes}
    (h : nesting.run? inner = some ⟨0, .outside⟩) (after : Bytes) :
    enclosed nesting (inner ++ 0x29 :: after) = (inner, after) := by
  rw [enclosed_append h, enclosed, (Nesting.step?_eq_none_iff _ _).mpr ⟨rfl, rfl⟩, List.append_nil]

/-- Either nothing closes the group, or a parenthesis does and the line falls into two. -/
theorem closing_cases (nesting : Nesting) (line : Bytes) :
    (∃ next, nesting.run? line = some next) ∨
      ∃ inner after, line = inner ++ 0x29 :: after ∧
        nesting.run? inner = some ⟨0, .outside⟩ := by
  induction line generalizing nesting with
  | nil => exact Or.inl ⟨nesting, rfl⟩
  | cons byte rest ih =>
    cases hstep : nesting.step? byte with
    | none =>
      obtain ⟨rfl, rfl⟩ := (Nesting.step?_eq_none_iff nesting byte).mp hstep
      exact Or.inr ⟨[], rest, rfl, rfl⟩
    | some next =>
      rcases ih next with ⟨last, hrun⟩ | ⟨inner, after, rfl, hrun⟩
      · exact Or.inl ⟨last, by rw [Nesting.run?, hstep]; exact hrun⟩
      · exact Or.inr ⟨byte :: inner, after, rfl, by rw [Nesting.run?, hstep]; exact hrun⟩

theorem cut_of_run? {next : Nesting} {line : Bytes}
    (h : Nesting.run? ⟨0, .outside⟩ line = some next) : cut line = (line, []) :=
  enclosed_of_run? h

theorem cut_closing {inner : Bytes} (h : Nesting.run? ⟨0, .outside⟩ inner = some ⟨0, .outside⟩)
    (after : Bytes) : cut (inner ++ 0x29 :: after) = (inner, after) :=
  enclosed_closing h after

/-- A group inside the group: what a line has before its own closing parenthesis is cut in turn
into the inside of the group that opens it and what follows that. -/
theorem exists_cut_opening (rest : Bytes) :
    ∃ inner, cut (0x28 :: rest) = (0x28 :: inner, (cut (cut rest).2).2) ∧
      cut inner = ((cut rest).1, (cut (cut rest).2).1) := by
  have hopen : cut (0x28 :: rest) =
      (0x28 :: (enclosed ⟨1, .outside⟩ rest).1, (enclosed ⟨1, .outside⟩ rest).2) := rfl
  rcases closing_cases ⟨0, .outside⟩ rest with ⟨⟨depth, quoting⟩, hrun⟩ | ⟨inner, after, rfl, hrun⟩
  · refine ⟨rest, ?_, ?_⟩
    · rw [hopen, enclosed_of_run? (Nesting.run?_deeper hrun), cut_of_run? hrun]
      rfl
    · rw [cut_of_run? hrun]
      rfl
  · have hclose : enclosed ⟨1, .outside⟩ (0x29 :: after) = (0x29 :: (cut after).1, (cut after).2) :=
      rfl
    refine ⟨inner ++ 0x29 :: (cut after).1, ?_, ?_⟩
    · rw [hopen, enclosed_append (Nesting.run?_deeper hrun), hclose, cut_closing hrun]
    · rw [cut_closing hrun, cut_closing hrun]

/-! ### Plain bytes -/

/-- What holds of the 256 bytes holds of every byte. -/
theorem forall_byte {property : UInt8 → Prop} (h : ∀ n : Fin 256, property (.ofFin n))
    (byte : UInt8) : property byte :=
  h byte.toFin

/-- A byte that is neither a parenthesis nor a quote. -/
def isPlain (byte : UInt8) : Bool :=
  byte != 0x22 && byte != 0x28 && byte != 0x29

theorem isPlain_iff (byte : UInt8) :
    isPlain byte = true ↔ byte ≠ 0x22 ∧ byte ≠ 0x28 ∧ byte ≠ 0x29 := by
  simp [isPlain, and_assoc]

theorem isPlain_of_property (property : UInt8 → Bool) (hquote : property 0x22 = false)
    (hopening : property 0x28 = false) (hclosing : property 0x29 = false) {byte : UInt8}
    (h : property byte = true) : isPlain byte = true := by
  rw [isPlain_iff]
  refine ⟨?_, ?_, ?_⟩
  · rintro rfl
    exact Bool.false_ne_true (hquote.symm.trans h)
  · rintro rfl
    exact Bool.false_ne_true (hopening.symm.trans h)
  · rintro rfl
    exact Bool.false_ne_true (hclosing.symm.trans h)

theorem Nesting.step?_plain {byte : UInt8} (h : isPlain byte = true) (depth : Nat) :
    Nesting.step? ⟨depth, .outside⟩ byte = some ⟨depth, .outside⟩ := by
  obtain ⟨hquote, hopening, hclosing⟩ := (isPlain_iff byte).mp h
  simp [step?, Quoting.step, hquote, hopening, hclosing]

theorem Nesting.run?_plain {bytes : Bytes} (h : ∀ byte ∈ bytes, isPlain byte = true) (depth : Nat) :
    Nesting.run? ⟨depth, .outside⟩ bytes = some ⟨depth, .outside⟩ := by
  induction bytes with
  | nil => rfl
  | cons byte rest ih =>
    rw [run?, step?_plain (h byte List.mem_cons_self)]
    exact ih fun other hother ↦ h other (List.mem_cons_of_mem _ hother)

/-- Plain bytes stay before the parenthesis that closes the group. -/
theorem cut_append_plain {bytes : Bytes} (h : ∀ byte ∈ bytes, isPlain byte = true) (rest : Bytes) :
    cut (bytes ++ rest) = (bytes ++ (cut rest).1, (cut rest).2) :=
  enclosed_append (Nesting.run?_plain h 0) rest

theorem cut_cons_plain {byte : UInt8} (h : isPlain byte = true) (rest : Bytes) :
    cut (byte :: rest) = (byte :: (cut rest).1, (cut rest).2) := by
  have hbytes : ∀ other ∈ [byte], isPlain other = true := by simpa using h
  exact cut_append_plain hbytes rest

/-- What stands before the closing parenthesis begins as the line does, if it is not empty. -/
theorem mem_head?_cut {byte : UInt8} {line : Bytes} (h : byte ∈ (cut line).1.head?) :
    byte ∈ line.head? := by
  rcases closing_cases ⟨0, .outside⟩ line with ⟨next, hrun⟩ | ⟨inner, after, rfl, hrun⟩
  · rw [cut_of_run? hrun] at h
    exact h
  · rw [cut_closing hrun] at h
    rw [List.head?_append, Option.mem_def.mp h]
    rfl

/-! ### Quoted text -/

theorem enclosed_cons {nesting next : Nesting} {byte : UInt8} (h : nesting.step? byte = some next)
    (rest : Bytes) :
    enclosed nesting (byte :: rest) = (byte :: (enclosed next rest).1, (enclosed next rest).2) := by
  rw [enclosed, h]

/-- Parentheses in quoted text are bytes like others. -/
theorem enclosed_cons_quoted {quoting : Quoting} (h : quoting ≠ .outside) (depth : Nat)
    (byte : UInt8) (rest : Bytes) :
    enclosed ⟨depth, quoting⟩ (byte :: rest) =
      (byte :: (enclosed ⟨depth, quoting.step byte⟩ rest).1,
        (enclosed ⟨depth, quoting.step byte⟩ rest).2) := by
  have hstep : Nesting.step? ⟨depth, quoting⟩ byte = some ⟨depth, quoting.step byte⟩ := by
    simp [Nesting.step?, h]
  exact enclosed_cons hstep rest

theorem quotedText_cons {byte : UInt8} (hquote : byte ≠ 0x22) (hbackslash : byte ≠ 0x5C)
    (rest : Bytes) :
    quotedText (byte :: rest) = (byte :: (quotedText rest).1, (quotedText rest).2) := by
  rw [quotedText]
  · exact hquote
  · exact fun h _ ↦ hbackslash h
  · exact fun _ _ h _ ↦ hbackslash h

theorem quotedText_escape (byte : UInt8) (rest : Bytes) :
    quotedText (0x5C :: byte :: rest) = (byte :: (quotedText rest).1, (quotedText rest).2) := by
  rw [quotedText]

/-- Induction along quoted text up to the quote that closes it. -/
theorem quotedText_induction {motive : Bytes → Prop} (nil : motive [])
    (quote : ∀ rest, motive (0x22 :: rest)) (cutShort : motive [0x5C])
    (escape : ∀ byte rest, motive rest → motive (0x5C :: byte :: rest))
    (other : ∀ byte rest, byte ≠ 0x22 → byte ≠ 0x5C → motive rest → motive (byte :: rest))
    (line : Bytes) : motive line := by
  fun_induction quotedText line with
  | case1 => exact nil
  | case2 rest => exact quote rest
  | case3 => exact cutShort
  | case4 byte rest text after hread ih => exact escape byte rest ih
  | case5 byte rest hquote hend hescape text after hread ih =>
    refine other byte rest hquote ?_ ih
    rintro rfl
    cases rest with
    | nil => exact hend rfl rfl
    | cons next rest => exact hescape next rest rfl rfl

/-- Quoted text is read to the same quote by both ways of following it, with the rest of the line
and without what stands after the group. -/
theorem exists_enclosed_quotedText (depth : Nat) (line : Bytes) :
    ∃ eaten, line = eaten ++ (quotedText line).2 ∧
      enclosed ⟨depth, .inside⟩ line =
        (eaten ++ (enclosed ⟨depth, .outside⟩ (quotedText line).2).1,
          (enclosed ⟨depth, .outside⟩ (quotedText line).2).2) ∧
      quotedText (eaten ++ (enclosed ⟨depth, .outside⟩ (quotedText line).2).1) =
        ((quotedText line).1, (enclosed ⟨depth, .outside⟩ (quotedText line).2).1) := by
  fun_induction quotedText line with
  | case1 => exact ⟨[], rfl, rfl, rfl⟩
  | case2 rest => exact ⟨[0x22], rfl, rfl, rfl⟩
  | case3 => exact ⟨[0x5C], rfl, rfl, rfl⟩
  | case4 byte rest text after hread ih =>
    obtain ⟨eaten, hline, henclosed, hquoted⟩ := ih
    rw [hread] at hline henclosed hquoted
    refine ⟨0x5C :: byte :: eaten, ?_, ?_, ?_⟩
    · exact congrArg (0x5C :: byte :: ·) hline
    · rw [enclosed_cons_quoted (by decide), enclosed_cons_quoted (by decide)]
      exact congrArg (fun found ↦ (0x5C :: byte :: found.1, found.2)) henclosed
    · rw [List.cons_append, List.cons_append, quotedText, hquoted]
  | case5 byte rest hquote hend hescape text after hread ih =>
    have hbackslash : byte ≠ 0x5C := by
      rintro rfl
      cases rest with
      | nil => exact hend rfl rfl
      | cons next rest => exact hescape next rest rfl rfl
    have hstep : Quoting.step .inside byte = .inside := by
      rw [Quoting.step, if_neg hbackslash, if_neg hquote]
    obtain ⟨eaten, hline, henclosed, hquoted⟩ := ih
    rw [hread] at hline henclosed hquoted
    refine ⟨byte :: eaten, ?_, ?_, ?_⟩
    · exact congrArg (byte :: ·) hline
    · rw [enclosed_cons_quoted (by decide), hstep]
      exact congrArg (fun found ↦ (byte :: found.1, found.2)) henclosed
    · rw [List.cons_append, quotedText_cons hquote hbackslash, hquoted]

/-! ### Words -/

/-- A property that holds of no parenthesis is not lost at the beginning of the line. -/
theorem any_head?_cut {property : UInt8 → Bool} (h : property 0x29 = false) (line : Bytes) :
    (cut line).1.head?.any property = line.head?.any property := by
  rcases closing_cases ⟨0, .outside⟩ line with ⟨next, hrun⟩ | ⟨inner, after, rfl, hrun⟩
  · rw [cut_of_run? hrun]
  · rw [cut_closing hrun]
    cases inner with
    | nil => exact h.symm
    | cons byte inner => rfl

/-- Plain bytes that share a property are the same before the closing parenthesis. -/
theorem span_cut {property : UInt8 → Bool} (hquote : property 0x22 = false)
    (hopening : property 0x28 = false) (hclosing : property 0x29 = false) (line : Bytes) :
    (cut line).1.takeWhile property = line.takeWhile property ∧
      (cut line).1.dropWhile property = (cut (line.dropWhile property)).1 ∧
      (cut line).2 = (cut (line.dropWhile property)).2 := by
  induction line with
  | nil => exact ⟨rfl, rfl, rfl⟩
  | cons byte rest ih =>
    by_cases hbyte : property byte = true
    · rw [cut_cons_plain (isPlain_of_property property hquote hopening hclosing hbyte),
        List.takeWhile_cons, List.takeWhile_cons, List.dropWhile_cons, List.dropWhile_cons,
        if_pos hbyte, if_pos hbyte, if_pos hbyte, if_pos hbyte]
      exact ⟨congrArg (byte :: ·) ih.1, ih.2⟩
    · rw [List.takeWhile_cons, List.dropWhile_cons, if_neg hbyte, if_neg hbyte]
      cases hcut : (cut (byte :: rest)).1 with
      | nil => exact ⟨rfl, rfl, rfl⟩
      | cons first inner =>
        have hfirst : first ∈ (byte :: rest).head? := mem_head?_cut (by rw [hcut]; rfl)
        obtain rfl : byte = first := Option.some.inj hfirst
        rw [List.takeWhile_cons, List.dropWhile_cons, if_neg hbyte, if_neg hbyte]
        exact ⟨rfl, rfl, rfl⟩

theorem nameWord_cut (kind : Kind) (line : Bytes) :
    nameWord kind (cut line).1 = ((nameWord kind line).1, (cut (nameWord kind line).2).1) ∧
      (cut line).2 = (cut (nameWord kind line).2).2 := by
  have hname : isNameByte 0x22 = false ∧ isNameByte 0x28 = false ∧ isNameByte 0x29 = false := by
    decide
  obtain ⟨htake, hdrop, hafter⟩ := span_cut hname.1 hname.2.1 hname.2.2 line
  rw [nameWord, nameWord, htake, hdrop]
  exact ⟨rfl, hafter⟩

theorem numeral_of_point {line rest : Bytes} (h : line.dropWhile Bytes.isDigit = 0x2E :: rest) :
    numeral line = (line.takeWhile Bytes.isDigit ++ 0x2E :: rest.takeWhile Bytes.isDigit,
      rest.dropWhile Bytes.isDigit) := by
  rw [numeral, h]
  rfl

theorem numeral_of_no_point {line : Bytes} (h : 0x2E ∉ (line.dropWhile Bytes.isDigit).head?) :
    numeral line = (line.takeWhile Bytes.isDigit, line.dropWhile Bytes.isDigit) := by
  rw [numeral]
  split
  · rename_i rest hrest
    rw [hrest] at h
    exact absurd rfl h
  · rfl

theorem numeral_cut (line : Bytes) :
    numeral (cut line).1 = ((numeral line).1, (cut (numeral line).2).1) ∧
      (cut line).2 = (cut (numeral line).2).2 := by
  have hdigit : Bytes.isDigit 0x22 = false ∧ Bytes.isDigit 0x28 = false ∧
      Bytes.isDigit 0x29 = false := by
    decide
  have hspan := span_cut hdigit.1 hdigit.2.1 hdigit.2.2
  obtain ⟨htake, hdrop, hafter⟩ := hspan line
  by_cases hpoint : 0x2E ∈ (line.dropWhile Bytes.isDigit).head?
  · obtain ⟨rest, hrest⟩ := List.head?_eq_some_iff.mp hpoint
    obtain ⟨htake', hdrop', hafter'⟩ := hspan rest
    rw [hrest, cut_cons_plain (by decide)] at hdrop hafter
    rw [numeral_of_point hdrop, numeral_of_point hrest, htake, htake', hdrop', hafter]
    exact ⟨rfl, hafter'⟩
  · have hpoint' : 0x2E ∉ ((cut line).1.dropWhile Bytes.isDigit).head? := by
      rw [hdrop]
      exact fun h ↦ hpoint (mem_head?_cut h)
    rw [numeral_of_no_point hpoint', numeral_of_no_point hpoint, htake, hdrop]
    exact ⟨rfl, hafter⟩

/-- A byte that is part of no operator ends one. -/
theorem operatorWord_of_not_isOperatorByte {byte second : UInt8}
    (h : ¬ isOperatorByte second = true) (rest : Bytes) :
    operatorWord byte (second :: rest) = (⟨.operator, [byte]⟩, second :: rest) := by
  have hslashes : ¬ (byte = 0x2F ∧ second = 0x2F) := by
    rintro ⟨-, rfl⟩
    exact h rfl
  rw [operatorWord, if_neg hslashes, if_neg h]

theorem operatorWord_cut {byte : UInt8} {rest : Bytes}
    (h : ¬ (byte = 0x2F ∧ 0x2F ∈ rest.head?)) :
    operatorWord byte (cut rest).1 =
        ((operatorWord byte rest).1, (cut (operatorWord byte rest).2).1) ∧
      (cut rest).2 = (cut (operatorWord byte rest).2).2 := by
  cases rest with
  | nil => exact ⟨rfl, rfl⟩
  | cons second rest =>
    have hslashes : ¬ (byte = 0x2F ∧ second = 0x2F) :=
      fun hboth ↦ h ⟨hboth.1, congrArg some hboth.2⟩
    by_cases hoperator : isOperatorByte second = true
    · have hplain : isPlain second = true :=
        isPlain_of_property isOperatorByte rfl rfl rfl hoperator
      rw [cut_cons_plain hplain, operatorWord, operatorWord, if_neg hslashes, if_neg hslashes,
        if_pos hoperator, if_pos hoperator]
      exact ⟨rfl, rfl⟩
    · rw [operatorWord_of_not_isOperatorByte hoperator]
      cases hcut : (cut (second :: rest)).1 with
      | nil => exact ⟨rfl, rfl⟩
      | cons first inner =>
        have hfirst : first ∈ (second :: rest).head? := mem_head?_cut (by rw [hcut]; rfl)
        obtain rfl : second = first := Option.some.inj hfirst
        rw [operatorWord_of_not_isOperatorByte hoperator]
        exact ⟨rfl, rfl⟩

/-- The bytes of a character after its first are plain. -/
theorem exists_plain_of_first? {byte : UInt8} {rest after : Bytes} {char : Char}
    (h : Text.first? (byte :: rest) = some (char, after)) :
    ∃ eaten, rest = eaten ++ after ∧ ∀ other ∈ eaten, isPlain other = true := by
  have hplain : ∀ other : UInt8, Text.isContinuation other = true → isPlain other = true :=
    fun other ↦ isPlain_of_property Text.isContinuation rfl rfl rfl
  obtain ⟨lead, hbytes, -⟩ | ⟨lead, a, hbytes, -, -, ha, -⟩ |
    ⟨lead, a, b, hbytes, -, -, ha, hb, -⟩ |
    ⟨lead, a, b, c, hbytes, -, -, ha, hb, hc, -⟩ := Text.first?_eq_some_cases h
  · exact ⟨[], (List.cons.inj hbytes).2, by simp⟩
  · exact ⟨[a], (List.cons.inj hbytes).2, by simp [hplain a ha]⟩
  · exact ⟨[a, b], (List.cons.inj hbytes).2, by simp [hplain a ha, hplain b hb]⟩
  · exact ⟨[a, b, c], (List.cons.inj hbytes).2, by
      simp [hplain a ha, hplain b hb, hplain c hc]⟩

theorem first?_cut_of_none {byte : UInt8} {rest : Bytes} (h : Text.first? (byte :: rest) = none) :
    Text.first? (byte :: (cut rest).1) = none := by
  rcases closing_cases ⟨0, .outside⟩ rest with ⟨next, hrun⟩ | ⟨inner, after, rfl, hrun⟩
  · rw [cut_of_run? hrun]
    exact h
  · rw [← List.cons_append, Text.first?_append (by decide), Option.map_eq_none_iff] at h
    rw [cut_closing hrun]
    exact h

/-- No character reaches across the closing parenthesis, also where it is cut short there. -/
theorem first?_cut_of_some {byte : UInt8} {rest after : Bytes} {char : Char}
    (h : Text.first? (byte :: rest) = some (char, after)) :
    Text.first? (byte :: (cut rest).1) = some (char, (cut after).1) ∧
      (cut rest).2 = (cut after).2 := by
  obtain ⟨eaten, rfl, hplain⟩ := exists_plain_of_first? h
  rw [cut_append_plain hplain]
  refine ⟨?_, rfl⟩
  rcases closing_cases ⟨0, .outside⟩ after with ⟨next, hrun⟩ | ⟨inner, tail, rfl, hrun⟩
  · rw [cut_of_run? hrun]
    exact h
  · rw [cut_closing hrun]
    rw [← List.append_assoc, ← List.cons_append, Text.first?_append (by decide)] at h
    obtain ⟨⟨found, left⟩, hfound, hpair⟩ := Option.map_eq_some_iff.mp h
    obtain ⟨rfl, hleft⟩ := Prod.mk.inj hpair
    obtain rfl : left = inner := List.append_cancel_right hleft
    exact hfound

/-! ### Scanning -/

/-- Whether the first byte of a line belongs to no word. -/
def isSkipped (byte : UInt8) (rest : Bytes) : Bool :=
  match Lead.ofByte byte with
  | .space => true
  | .dollar | .atSign => !rest.head?.any isNameStart
  | _ => false

/-- Whether a comment starts with the first byte of a line. -/
def startsComment (byte : UInt8) (rest : Bytes) : Bool :=
  byte == 0x3B || byte == 0x2F && rest.head?.any (· == 0x2F)

theorem isSkipped_cut (byte : UInt8) (rest : Bytes) :
    isSkipped byte (cut rest).1 = isSkipped byte rest := by
  have hname : isNameStart 0x29 = false := by decide
  rw [isSkipped, isSkipped, any_head?_cut hname]

theorem startsComment_cut (byte : UInt8) (rest : Bytes) :
    startsComment byte (cut rest).1 = startsComment byte rest := by
  have hslash : ((0x29 : UInt8) == 0x2F) = false := by decide
  rw [startsComment, startsComment, any_head?_cut hslash]

theorem isPlain_of_isSkipped {byte : UInt8} {rest : Bytes} (h : isSkipped byte rest = true) :
    isPlain byte = true :=
  isPlain_of_property (fun byte ↦ isSkipped byte rest) rfl rfl rfl h

theorem isPlain_of_startsComment {byte : UInt8} {rest : Bytes}
    (h : startsComment byte rest = true) : isPlain byte = true :=
  isPlain_of_property (fun byte ↦ startsComment byte rest) rfl rfl rfl h

theorem scan_of_isSkipped {byte : UInt8} {rest : Bytes} (h : isSkipped byte rest = true) :
    scan (byte :: rest) = scan rest := by
  rw [isSkipped] at h
  rw [scan]
  split at h <;> simp_all

theorem scan_of_startsComment {byte : UInt8} {rest : Bytes} (h : startsComment byte rest = true) :
    scan (byte :: rest) = (.empty, []) := by
  rw [startsComment, Bool.or_eq_true, Bool.and_eq_true, beq_iff_eq, beq_iff_eq] at h
  rcases h with rfl | ⟨rfl, hsecond⟩
  · rfl
  · obtain ⟨second, hhead, hslash⟩ := (Option.any_eq_true _ _).mp hsecond
    obtain ⟨tail, rfl⟩ := List.head?_eq_some_iff.mp hhead
    rw [beq_iff_eq] at hslash
    rw [hslash]
    rfl

theorem scan_opening (rest : Bytes) :
    scan (0x28 :: rest) = (⟨.group, (cut rest).1⟩, (cut rest).2) :=
  rfl

theorem scan_quote (rest : Bytes) :
    scan (0x22 :: rest) = (⟨.text, (quotedText rest).1⟩, (quotedText rest).2) :=
  rfl

theorem byte_eq_of_lead (byte : UInt8) :
    (Lead.ofByte byte = .quote → byte = 0x22) ∧ (Lead.ofByte byte = .opening → byte = 0x28) ∧
      (Lead.ofByte byte = .semicolon → byte = 0x3B) := by
  refine ⟨?_, ?_, ?_⟩
  all_goals
    intro h
    unfold Lead.ofByte at h
    repeat' split at h
    all_goals simp_all

theorem scan_cut_quote (rest : Bytes) :
    scan (cut (0x22 :: rest)).1 =
        ((scan (0x22 :: rest)).1, (cut (scan (0x22 :: rest)).2).1) ∧
      (cut (0x22 :: rest)).2 = (cut (scan (0x22 :: rest)).2).2 := by
  have hopen : cut (0x22 :: rest) =
      (0x22 :: (enclosed ⟨0, .inside⟩ rest).1, (enclosed ⟨0, .inside⟩ rest).2) := rfl
  obtain ⟨eaten, -, henclosed, hquoted⟩ := exists_enclosed_quotedText 0 rest
  rw [hopen, henclosed, scan_quote, scan_quote, hquoted]
  exact ⟨rfl, rfl⟩

/-- No word reaches across the parenthesis that closes the group: the first word of what stands
before it is the first word of the line, and what is left of both is cut at the same place. -/
theorem scan_cut {byte : UInt8} {rest : Bytes} (hskipped : isSkipped byte rest = false)
    (hcomment : startsComment byte rest = false) (hopening : byte ≠ 0x28)
    (hclosing : byte ≠ 0x29) :
    scan (cut (byte :: rest)).1 =
        ((scan (byte :: rest)).1, (cut (scan (byte :: rest)).2).1) ∧
      (cut (byte :: rest)).2 = (cut (scan (byte :: rest)).2).2 := by
  by_cases hquote : byte = 0x22
  · subst hquote
    exact scan_cut_quote rest
  have hplain : isPlain byte = true := (isPlain_iff byte).mpr ⟨hquote, hopening, hclosing⟩
  have hname : isNameStart 0x29 = false := by decide
  obtain ⟨hleadQuote, hleadOpening, hleadSemicolon⟩ := byte_eq_of_lead byte
  rw [cut_cons_plain hplain]
  cases hlead : Lead.ofByte byte with
  | space => simp [isSkipped, hlead] at hskipped
  | tab => simp only [scan, hlead, and_self]
  | comma => simp only [scan, hlead, and_self]
  | trail => simp only [scan, hlead, and_self]
  | cast => simp only [scan, hlead, and_self]
  | dollar =>
    simp only [isSkipped, hlead, Bool.not_eq_false'] at hskipped
    simp only [scan, hlead, any_head?_cut hname, if_pos hskipped]
    exact nameWord_cut .varname rest
  | atSign =>
    simp only [isSkipped, hlead, Bool.not_eq_false'] at hskipped
    simp only [scan, hlead, any_head?_cut hname, if_pos hskipped]
    exact nameWord_cut .funcname rest
  | quote => exact absurd (hleadQuote hlead) hquote
  | opening => exact absurd (hleadOpening hlead) hopening
  | semicolon => simp [startsComment, hleadSemicolon hlead] at hcomment
  | operator =>
    have hslashes : ¬ (byte = 0x2F ∧ 0x2F ∈ rest.head?) := by
      rintro ⟨rfl, hsecond⟩
      rw [startsComment, Option.mem_def.mp hsecond] at hcomment
      exact absurd hcomment (by decide)
    simp only [scan, hlead]
    exact operatorWord_cut hslashes
  | digit =>
    have hnumeral := numeral_cut (byte :: rest)
    rw [cut_cons_plain hplain] at hnumeral
    simp only [scan, hlead, hnumeral.1, true_and]
    exact hnumeral.2
  | letter =>
    have hword := nameWord_cut .name (byte :: rest)
    rw [cut_cons_plain hplain] at hword
    simp only [scan, hlead]
    exact hword
  | other =>
    cases hfirst : Text.first? (byte :: rest) with
    | none =>
      simp only [scan, hlead, hfirst, first?_cut_of_none hfirst, and_self]
    | some found =>
      obtain ⟨hfound, hafter⟩ := first?_cut_of_some hfirst
      simp only [scan, hlead, hfirst, hfound, true_and]
      exact hafter

end LineScript
