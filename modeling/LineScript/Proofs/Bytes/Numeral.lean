import LineScript.Bytes
import Mathlib.Data.List.Induction
import Mathlib.Tactic.Ring

/-!
Decimal numerals and the numbers they denote. The value of a numeral is positional: putting digits
after it multiplies by a power of ten. The numeral of a number denotes that number, consists of
digits and is no longer than the number needs. Digits are taken off a string as a run of bytes that
share a property, which ends before the first byte without it.
-/

set_option autoImplicit false
set_option relaxedAutoImplicit false

namespace LineScript.Bytes

-- Powers are those of the core library, as in the definitions.
attribute [local instance (2000)] instPowNat

/-- A run of bytes with a property ends before what begins without it. -/
theorem span_append {α : Type} {property : α → Bool} {run tail : List α}
    (hrun : ∀ byte ∈ run, property byte = true)
    (htail : ∀ byte ∈ tail.head?, property byte = false) :
    (run ++ tail).takeWhile property = run ∧ (run ++ tail).dropWhile property = tail := by
  rw [List.takeWhile_append_of_pos hrun, List.dropWhile_append_of_pos hrun]
  cases tail with
  | nil => simp
  | cons byte rest =>
    have hbyte := htail byte rfl
    simp [hbyte]

/-- Where a run ends is known from the whole. -/
theorem append_inj_of_span {α : Type} {property : α → Bool} {run other tail rest : List α}
    (hrun : ∀ byte ∈ run, property byte = true) (hother : ∀ byte ∈ other, property byte = true)
    (htail : ∀ byte ∈ tail.head?, property byte = false)
    (hrest : ∀ byte ∈ rest.head?, property byte = false) (h : run ++ tail = other ++ rest) :
    run = other ∧ tail = rest := by
  obtain ⟨htake, hdrop⟩ := span_append hrun htail
  obtain ⟨htakeOther, hdropOther⟩ := span_append hother hrest
  rw [h] at htake hdrop
  exact ⟨htake.symm.trans htakeOther, hdrop.symm.trans hdropOther⟩

theorem value_append_digit (digits : Bytes) (digit : UInt8) :
    value (digits ++ [digit]) = value digits * 10 + digitValue digit := by
  simp [value, List.foldl_append]

theorem value_append (first second : Bytes) :
    value (first ++ second) = value first * 10 ^ second.length + value second := by
  induction second using List.reverseRecOn with
  | nil => simp [value]
  | append_singleton rest digit ih =>
    rw [← List.append_assoc, value_append_digit, value_append_digit, ih]
    simp only [List.length_append, List.length_singleton, pow_succ]
    ring

@[simp] theorem value_replicate_zero (count : Nat) : value (List.replicate count 0x30) = 0 := by
  induction count with
  | zero => rfl
  | succ count ih =>
    rw [List.replicate_succ', value_append_digit, ih]
    rfl

/-- Zeros before a numeral do not count. -/
theorem value_zeros_append (count : Nat) (digits : Bytes) :
    value (List.replicate count 0x30 ++ digits) = value digits := by
  rw [value_append, value_replicate_zero, Nat.zero_mul, Nat.zero_add]

/-- A zero after a numeral multiplies by ten. -/
theorem value_append_zeros (digits : Bytes) (count : Nat) :
    value (digits ++ List.replicate count 0x30) = value digits * 10 ^ count := by
  rw [value_append, value_replicate_zero, List.length_replicate, Nat.add_zero]

theorem digitValue_ofNat {n : Nat} (h : n < 10) : digitValue (UInt8.ofNat (0x30 + n)) = n := by
  simp only [digitValue, UInt8.toNat_ofNat']
  omega

theorem isDigit_iff (byte : UInt8) :
    isDigit byte = true ↔ 0x30 ≤ byte.toNat ∧ byte.toNat ≤ 0x39 := by
  simp [isDigit, UInt8.le_iff_toNat_le]

theorem isDigit_ofNat {n : Nat} (h : n < 10) : isDigit (UInt8.ofNat (0x30 + n)) = true := by
  rw [isDigit_iff, UInt8.toNat_ofNat']
  omega

/-! ### The numeral of a number -/

@[simp] theorem value_decimal (n : Nat) : value (decimal n) = n := by
  induction n using Nat.strong_induction_on with
  | _ n ih =>
    rw [decimal]
    split_ifs with h
    · rw [← List.nil_append [_], value_append_digit, digitValue_ofNat h]
      simp [value]
    · rw [value_append_digit, ih (n / 10) (by omega), digitValue_ofNat (by omega)]
      omega

theorem decimal_ne_nil (n : Nat) : decimal n ≠ [] := by
  rw [decimal]
  split_ifs <;> simp

theorem isDigit_of_mem_decimal {n : Nat} : ∀ byte ∈ decimal n, isDigit byte = true := by
  induction n using Nat.strong_induction_on with
  | _ n ih =>
    intro byte hbyte
    rw [decimal] at hbyte
    split_ifs at hbyte with h
    · rw [List.mem_singleton] at hbyte
      exact hbyte ▸ isDigit_ofNat h
    · rcases List.mem_append.mp hbyte with hhigh | hlow
      · exact ih (n / 10) (by omega) byte hhigh
      · rw [List.mem_singleton] at hlow
        exact hlow ▸ isDigit_ofNat (by omega)

/-- A numeral is known from the whole, unless digits follow it. -/
theorem decimal_append_inj {m n : Nat} {tail rest : Bytes}
    (htail : ∀ byte ∈ tail.head?, isDigit byte = false)
    (hrest : ∀ byte ∈ rest.head?, isDigit byte = false)
    (h : decimal m ++ tail = decimal n ++ rest) :
    m = n ∧ tail = rest := by
  obtain ⟨hnumerals, hafter⟩ :=
    append_inj_of_span isDigit_of_mem_decimal isDigit_of_mem_decimal htail hrest h
  refine ⟨?_, hafter⟩
  rw [← value_decimal m, hnumerals, value_decimal]

theorem length_decimal_le {n width : Nat} (h : n < 10 ^ (width + 1)) :
    (decimal n).length ≤ width + 1 := by
  induction width generalizing n with
  | zero =>
    rw [decimal, if_pos (by simpa using h)]
    simp
  | succ width ih =>
    rw [decimal]
    split_ifs with hsmall
    · simp
    · have hquotient : n / 10 < 10 ^ (width + 1) := by
        rw [pow_succ] at h
        omega
      have := ih hquotient
      simp only [List.length_append, List.length_singleton]
      omega

end LineScript.Bytes
