import LineScript.Proofs.Text.OneLine
import LineScript.Proofs.Word.Rendering

/-!
Texts read back from their rendering. Quoting has more escapes than reading undoes: reading only
drops a backslash, so an escape by a letter or a number leaves that letter or the digits of that
number in the text. A rendered text is always read as one word, and it is the text that was rendered
exactly when that consists of printable characters. Otherwise each control character, each other
character that does not print and each stray byte comes back as the letters and digits of its
escape.
-/

set_option autoImplicit false
set_option relaxedAutoImplicit false

namespace LineScript

open Bytes

namespace Text

/-- Whether a piece is a printable character. -/
def Piece.isShown : Piece → Bool
  | .character char => isPrintable char
  | .stray _ => false

/-- Whether a byte string consists of printable characters. -/
def isShown (bytes : Bytes) : Bool :=
  (pieces bytes).all Piece.isShown

/-- What a piece is between quotes, less the backslash it may start with. -/
def Piece.spelling (piece : Piece) : Bytes :=
  match piece.quoted with
  | 0x5C :: rest => rest
  | bytes => bytes

/-- A byte string with each piece as it is between quotes, less the backslashes of escapes. -/
def respelled (bytes : Bytes) : Bytes :=
  (pieces bytes).flatMap Piece.spelling

/-- Bytes that neither end quoted text nor hide a byte of it. -/
def IsBare (bytes : Bytes) : Prop :=
  0x22 ∉ bytes ∧ 0x5C ∉ bytes

theorem isBare_hex (width n : Nat) : IsBare (hex width n) := by
  have hdigits : ∀ digit < 16, hexDigit digit ≠ 0x22 ∧ hexDigit digit ≠ 0x5C := by decide
  constructor
  · intro hmem
    obtain ⟨digit, hdigit, heq⟩ := exists_of_mem_hex hmem
    exact (hdigits digit hdigit).1 heq
  · intro hmem
    obtain ⟨digit, hdigit, heq⟩ := exists_of_mem_hex hmem
    exact (hdigits digit hdigit).2 heq

theorem length_hex (width n : Nat) : (hex width n).length = width := by
  induction width generalizing n with
  | zero => rfl
  | succ width ih => rw [hex, List.length_append, ih, List.length_singleton]

theorem isBare_encode {char : Char} (h : ¬ (char.toNat = 0x22 ∨ char.toNat = 0x5C)) :
    IsBare (String.utf8EncodeChar char) :=
  ⟨fun hmem ↦ h (Or.inl (toNat_of_mem_encode (by decide) hmem)),
    fun hmem ↦ h (Or.inr (toNat_of_mem_encode (by decide) hmem))⟩

/-! ### Escapes -/

theorem encode_of_ascii {char : Char} (h : char.toNat < 0x80) :
    String.utf8EncodeChar char = [UInt8.ofNat char.toNat] := by
  have hval : char.val.toNat = char.toNat := rfl
  rw [String.utf8EncodeChar, hval, if_pos (by omega)]

/-- The letter of an escape is not the control character that it stands for. -/
theorem escapeLetter?_ne {code : Nat} {letter : UInt8} (h : escapeLetter? code = some letter) :
    code < 0x80 ∧ UInt8.ofNat code ≠ letter := by
  unfold escapeLetter? at h
  split at h
  all_goals cases h
  all_goals decide

/-- A piece is escaped otherwise than by a backslash before its bytes: by a letter, or by a letter
and digits that are more than its bytes. -/
structure Piece.IsDisguised (piece : Piece) (letter : UInt8) (digits : Bytes) : Prop where
  quoted : piece.quoted = 0x5C :: letter :: digits
  isBare : IsBare digits
  length : piece.bytes.length ≤ digits.length + 1
  bytes_ne : piece.bytes ≠ letter :: digits

theorem Piece.isDisguised_hex {piece : Piece} {letter : UInt8} {width n : Nat}
    (hquoted : piece.quoted = 0x5C :: letter :: hex width n)
    (hlength : piece.bytes.length ≤ width) : piece.IsDisguised letter (hex width n) where
  quoted := hquoted
  isBare := isBare_hex width n
  length := by
    rw [length_hex]
    omega
  bytes_ne := by
    intro heq
    rw [heq, List.length_cons, length_hex] at hlength
    omega

/-- A character that is not printable is quoted by a letter or by hexadecimal digits. -/
theorem Piece.exists_isDisguised {char : Char}
    (hspecial : ¬ (char.toNat = 0x22 ∨ char.toNat = 0x5C))
    (hprintable : ¬ isPrintable char = true) :
    ∃ letter digits, (Piece.character char).IsDisguised letter digits := by
  have hlength : (String.utf8EncodeChar char).length ≤ 4 := by
    rw [String.length_utf8EncodeChar]
    exact char.utf8Size_le_four
  cases hletter : escapeLetter? char.toNat with
  | some letter =>
    have hquoted : (Piece.character char).quoted = [0x5C, letter] := by
      simp only [Piece.quoted, quotedChar, if_neg hspecial, if_neg hprintable, hletter]
    obtain ⟨hascii, hne⟩ := escapeLetter?_ne hletter
    refine ⟨letter, [], hquoted, ⟨List.not_mem_nil, List.not_mem_nil⟩, ?_, ?_⟩
    · rw [Piece.bytes, encode_of_ascii hascii]
      exact Nat.le_refl 1
    · rw [Piece.bytes, encode_of_ascii hascii]
      exact fun heq ↦ hne (List.cons.inj heq).1
  | none =>
    have hquoted : (Piece.character char).quoted =
        if char.toNat < 0x80 then utf8 "\\x" ++ hex 2 char.toNat
        else if char.toNat < 0x10000 then utf8 "\\u" ++ hex 4 char.toNat
        else utf8 "\\U" ++ hex 8 char.toNat := by
      simp only [Piece.quoted, quotedChar, if_neg hspecial, if_neg hprintable, hletter]
    split_ifs at hquoted with hascii hplane
    · refine ⟨_, _, isDisguised_hex hquoted ?_⟩
      rw [Piece.bytes, encode_of_ascii hascii]
      exact Nat.le_succ 1
    · exact ⟨_, _, isDisguised_hex hquoted hlength⟩
    · exact ⟨_, _, isDisguised_hex hquoted (Nat.le_trans hlength (by decide))⟩

/-- Between quotes a printable character is itself, after a backslash if it is a quote or a
backslash, and everything else is disguised. -/
theorem Piece.quoted_cases (piece : Piece) :
    (piece.isShown = true ∧ piece.quoted = piece.bytes ∧ IsBare piece.bytes) ∨
      (piece.isShown = true ∧ ∃ byte, piece.bytes = [byte] ∧ piece.quoted = [0x5C, byte]) ∨
      (piece.isShown = false ∧ ∃ letter digits, piece.IsDisguised letter digits) := by
  cases piece with
  | stray byte =>
    have hlength : (Piece.stray byte).bytes.length ≤ 2 := Nat.le_succ 1
    exact Or.inr (Or.inr ⟨rfl, _, _, isDisguised_hex rfl hlength⟩)
  | character char =>
    by_cases hspecial : char.toNat = 0x22 ∨ char.toNat = 0x5C
    · have hprintable : isPrintable char = true := by
        rcases hspecial with hcode | hcode <;> simp [isPrintable, hcode]
      have hencode : String.utf8EncodeChar char = [UInt8.ofNat char.toNat] :=
        encode_of_ascii (by omega)
      refine Or.inr (Or.inl ⟨hprintable, _, hencode, ?_⟩)
      rw [Piece.quoted, quotedChar, if_pos hspecial, hencode]
    by_cases hprintable : isPrintable char = true
    · refine Or.inl ⟨hprintable, ?_, isBare_encode hspecial⟩
      rw [Piece.quoted, quotedChar, if_neg hspecial, if_pos hprintable, Piece.bytes]
    exact Or.inr (Or.inr ⟨Bool.eq_false_iff.mpr hprintable, exists_isDisguised hspecial hprintable⟩)

namespace Piece

variable {piece : Piece}

theorem spelling_of_isBare (hquoted : piece.quoted = piece.bytes) (hbare : IsBare piece.bytes) :
    piece.spelling = piece.bytes := by
  rw [spelling, hquoted]
  split
  · rename_i rest hrest
    exact absurd (hrest ▸ List.mem_cons_self) hbare.2
  · rfl

theorem spelling_of_backslash {rest : Bytes} (h : piece.quoted = 0x5C :: rest) :
    piece.spelling = rest := by
  rw [spelling, h]
  rfl

/-- A piece is read back as it was if and only if it is a printable character, and what is read
back is never shorter. -/
theorem spelling_eq_bytes_iff (piece : Piece) :
    (piece.spelling = piece.bytes ↔ piece.isShown = true) ∧
      piece.bytes.length ≤ piece.spelling.length := by
  rcases piece.quoted_cases with ⟨hshown, hquoted, hbare⟩ | ⟨hshown, byte, hbytes, hquoted⟩ |
    ⟨hshown, letter, digits, hdisguised⟩
  · have hspelling := spelling_of_isBare hquoted hbare
    exact ⟨iff_of_true hspelling hshown, hspelling ▸ Nat.le_refl _⟩
  · have hspelling : piece.spelling = piece.bytes :=
      (spelling_of_backslash hquoted).trans hbytes.symm
    exact ⟨iff_of_true hspelling hshown, hspelling ▸ Nat.le_refl _⟩
  · rw [spelling_of_backslash hdisguised.quoted]
    exact ⟨iff_of_false (Ne.symm hdisguised.bytes_ne) (Bool.eq_false_iff.mp hshown),
      hdisguised.length⟩

end Piece

end Text

/-! ### Reading -/

open Text

theorem quotedText_append_bare {bytes : Bytes} (h : IsBare bytes) (tail : Bytes) :
    quotedText (bytes ++ tail) = (bytes ++ (quotedText tail).1, (quotedText tail).2) := by
  induction bytes with
  | nil => rfl
  | cons byte rest ih =>
    obtain ⟨hquote, hbackslash⟩ := h
    rw [List.mem_cons, not_or] at hquote hbackslash
    rw [List.cons_append, quotedText_cons (Ne.symm hquote.1) (Ne.symm hbackslash.1),
      ih ⟨hquote.2, hbackslash.2⟩, List.cons_append]

/-- Reading takes one piece as it is between quotes, and drops the backslash of its escape. -/
theorem quotedText_quoted_append (piece : Piece) (tail : Bytes) :
    quotedText (piece.quoted ++ tail) =
      (piece.spelling ++ (quotedText tail).1, (quotedText tail).2) := by
  rcases piece.quoted_cases with ⟨-, hquoted, hbare⟩ | ⟨-, byte, -, hquoted⟩ |
    ⟨-, letter, digits, hdisguised⟩
  · rw [Piece.spelling_of_isBare hquoted hbare, hquoted, quotedText_append_bare hbare]
  · rw [Piece.spelling_of_backslash hquoted, hquoted]
    exact quotedText_escape byte tail
  · rw [Piece.spelling_of_backslash hdisguised.quoted, hdisguised.quoted, List.cons_append,
      List.cons_append, quotedText_escape, quotedText_append_bare hdisguised.isBare,
      List.cons_append]

theorem quotedText_flatMap_quoted (parts : List Piece) (tail : Bytes) :
    quotedText (parts.flatMap Piece.quoted ++ 0x22 :: tail) =
      (parts.flatMap Piece.spelling, tail) := by
  induction parts with
  | nil => rfl
  | cons piece parts ih =>
    rw [List.flatMap_cons, List.flatMap_cons, List.append_assoc, quotedText_quoted_append, ih]

theorem scan_render_text (text : Bytes) :
    scan (Word.render ⟨.text, text⟩) = (⟨.text, respelled text⟩, []) := by
  have hread := quotedText_flatMap_quoted (pieces text) []
  rw [Word.render, Text.quote, List.cons_append, scan_quote, hread]
  rfl

/-- Pieces that are each no shorter than their bytes make up the same bytes only if each of them
does. -/
theorem flatMap_spelling_eq_iff (parts : List Piece) :
    (parts.flatMap Piece.spelling = parts.flatMap Piece.bytes ↔
        ∀ piece ∈ parts, piece.isShown = true) ∧
      (parts.flatMap Piece.bytes).length ≤ (parts.flatMap Piece.spelling).length := by
  induction parts with
  | nil => simp
  | cons piece parts ih =>
    obtain ⟨hrest, hlengths⟩ := ih
    obtain ⟨hpiece, hlength⟩ := piece.spelling_eq_bytes_iff
    rw [List.flatMap_cons, List.flatMap_cons, List.length_append, List.length_append,
      List.forall_mem_cons, ← hrest, ← hpiece]
    refine ⟨⟨fun heq ↦ ?_, fun heq ↦ ?_⟩, Nat.add_le_add hlength hlengths⟩
    · -- The lengths agree in total, and none of the two parts is too short.
      have htotal := congrArg List.length heq
      rw [List.length_append, List.length_append] at htotal
      exact List.append_inj heq (by omega)
    · rw [heq.1, heq.2]

theorem respelled_eq_iff (text : Bytes) : respelled text = text ↔ isShown text = true := by
  have hparts := (flatMap_spelling_eq_iff (pieces text)).1
  rw [flatMap_bytes_pieces] at hparts
  rw [isShown, List.all_eq_true]
  exact hparts

/-- Without a limit a rendered text is read as one word, whose text has lost the backslashes of all
escapes. It is the text that was rendered if and only if that consists of printable characters. -/
theorem tokenize_render_text {limit : Int} (hlimit : limit ≤ 0) (text : Bytes) :
    tokenize limit (Word.render ⟨.text, text⟩) = ⟨[⟨.text, respelled text⟩], none⟩ ∧
      (tokenize limit (Word.render ⟨.text, text⟩) = ⟨[⟨.text, text⟩], none⟩ ↔
        isShown text = true) := by
  have hrefusal : Word.refusal? limit ⟨.text, respelled text⟩ = none :=
    Word.refusal?_eq_none rfl fun _ ↦ (exceeds_eq_false_iff _ _).mpr (Or.inl hlimit)
  have hread : tokenize limit (Word.render ⟨.text, text⟩) = ⟨[⟨.text, respelled text⟩], none⟩ := by
    rw [tokenize_of_scan (scan_render_text text) (by simp) (by simp), hrefusal, tokenize_nil]
    rfl
  refine ⟨hread, ?_⟩
  rw [hread, ← respelled_eq_iff]
  simp

/-- A text with quotes, backslashes and printable characters above ASCII is read back. -/
theorem tokenize_render_text_shown :
    (0 : Int) ≤ 0 ∧ tokenize 0 (Word.render ⟨.text, utf8 "\\n \"é\" (∀)"⟩) =
      ⟨[⟨.text, utf8 "\\n \"é\" (∀)"⟩], none⟩ :=
  ⟨Int.le_refl 0, (tokenize_render_text (Int.le_refl 0) _).2.mpr (by decide +kernel)⟩

/-- A tab, a control character without a letter, a character that does not print and a stray byte
are read back as letters and digits. -/
theorem tokenize_render_text_escapes :
    tokenize 0 (Word.render ⟨.text, [0x09]⟩) = ⟨[⟨.text, utf8 "t"⟩], none⟩ ∧
      tokenize 0 (Word.render ⟨.text, [0x01]⟩) = ⟨[⟨.text, utf8 "x01"⟩], none⟩ ∧
      tokenize 0 (Word.render ⟨.text, utf8 "\u200b"⟩) = ⟨[⟨.text, utf8 "u200b"⟩], none⟩ ∧
      tokenize 0 (Word.render ⟨.text, [0xFF]⟩) = ⟨[⟨.text, utf8 "xff"⟩], none⟩ ∧
      tokenize 0 (Word.render ⟨.text, [0x09]⟩) ≠ ⟨[⟨.text, [0x09]⟩], none⟩ := by
  decide +kernel

end LineScript
