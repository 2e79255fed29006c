import LineScript.Proofs.Text.Pieces
import LineScript.Text.Quoted

/-!
Quoted text is one line. A byte of ASCII occurs in the encoding of one character only, which is
itself, so a newline could only come from a newline character, and that one is written by a letter.
-/

set_option autoImplicit false
set_option relaxedAutoImplicit false

namespace LineScript.Text

open Bytes

/-- A byte of ASCII in the encoding of a character is that character. -/
theorem toNat_of_mem_encode {byte : UInt8} {char : Char} (hascii : byte < 0x80)
    (h : byte ∈ String.utf8EncodeChar char) : char.toNat = byte.toNat := by
  have hval : char.val.toNat = char.toNat := rfl
  have hrange : byte.toNat < 0x80 := UInt8.lt_iff_toNat_lt.mp hascii
  unfold String.utf8EncodeChar at h
  dsimp only at h
  rw [hval] at h
  split_ifs at h
  all_goals
    simp only [List.mem_cons, List.not_mem_nil, or_false, ← UInt8.toNat_inj,
      UInt8.toNat_ofNat'] at h
    omega

theorem newline_notMem_encode {char : Char} (h : char.toNat ≠ 0x0A) :
    0x0A ∉ String.utf8EncodeChar char :=
  fun hmem ↦ h (toNat_of_mem_encode (by decide) hmem)

theorem exists_of_mem_hex {width n : Nat} {byte : UInt8} (h : byte ∈ hex width n) :
    ∃ digit < 16, hexDigit digit = byte := by
  induction width generalizing n with
  | zero => cases h
  | succ width ih =>
    rw [hex, List.mem_append, List.mem_singleton] at h
    rcases h with h | rfl
    · exact ih h
    · exact ⟨n % 16, Nat.mod_lt _ (by decide), rfl⟩

theorem newline_notMem_hex (width n : Nat) : 0x0A ∉ hex width n := by
  have hdigits : ∀ digit < 16, hexDigit digit ≠ 0x0A := by decide
  intro hmem
  obtain ⟨digit, hdigit, heq⟩ := exists_of_mem_hex hmem
  exact hdigits digit hdigit heq

theorem newline_notMem_escapeLetter {code : Nat} {letter : UInt8}
    (h : escapeLetter? code = some letter) : 0x0A ∉ [0x5C, letter] := by
  unfold escapeLetter? at h
  split at h
  all_goals cases h
  all_goals decide

theorem newline_notMem_quotedChar (char : Char) : 0x0A ∉ quotedChar char := by
  have hhex : ∀ (mark : Bytes) (width : Nat), 0x0A ∉ mark →
      0x0A ∉ mark ++ hex width char.toNat := by
    intro mark width hmark
    rw [List.mem_append, not_or]
    exact ⟨hmark, newline_notMem_hex _ _⟩
  unfold quotedChar
  dsimp only
  by_cases hspecial : char.toNat = 0x22 ∨ char.toNat = 0x5C
  · rw [if_pos hspecial, List.mem_cons, not_or]
    exact ⟨by decide, newline_notMem_encode (by omega)⟩
  rw [if_neg hspecial]
  by_cases hprintable : isPrintable char = true
  · rw [if_pos hprintable]
    refine newline_notMem_encode fun hcode ↦ ?_
    simp [isPrintable, hcode] at hprintable
  rw [if_neg hprintable]
  split
  · rename_i letter hletter
    exact newline_notMem_escapeLetter hletter
  · split_ifs
    · exact hhex _ _ (by decide)
    · exact hhex _ _ (by decide)
    · exact hhex _ _ (by decide)

theorem newline_notMem_quoted (piece : Piece) : 0x0A ∉ piece.quoted := by
  cases piece with
  | character char => exact newline_notMem_quotedChar char
  | stray byte =>
    rw [Piece.quoted, List.mem_append, not_or]
    exact ⟨by decide, newline_notMem_hex _ _⟩

theorem newline_notMem_quote (bytes : Bytes) : 0x0A ∉ quote bytes := by
  simp [quote, newline_notMem_quoted]

end LineScript.Text
