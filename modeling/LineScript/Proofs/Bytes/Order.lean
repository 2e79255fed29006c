import LineScript.Bytes
import Mathlib.Data.List.Sort

/-!
Sorting by the byte order of strings. Items that are known by their strings have one sorted order:
it does not depend on the order in which they are given.
-/

set_option autoImplicit false
set_option relaxedAutoImplicit false

namespace LineScript.Bytes

variable {α : Type} (key : α → Bytes)

theorem pairwise_mergeSort (items : List α) :
    (items.mergeSort fun first second ↦ le (key first) (key second)).Pairwise
      fun first second ↦ key first ≤ key second := by
  have htrans : ∀ a b c : α, le (key a) (key b) = true → le (key b) (key c) = true →
      le (key a) (key c) = true := by
    intro a b c hab hbc
    simp only [le, decide_eq_true_eq] at hab hbc ⊢
    exact List.le_trans hab hbc
  have htotal : ∀ a b : α, (le (key a) (key b) || le (key b) (key a)) = true := by
    intro a b
    simp only [le, Bool.or_eq_true, decide_eq_true_eq]
    exact List.le_total (key a) (key b)
  refine (List.pairwise_mergeSort htrans htotal items).imp fun h ↦ ?_
  exact of_decide_eq_true h

/-- Sorting forgets the order of items of which no two have the same string. -/
theorem mergeSort_of_perm {items others : List α} (h : items.Perm others)
    (hkey : ∀ first ∈ items, ∀ second ∈ items, key first = key second → first = second) :
    (items.mergeSort fun first second ↦ le (key first) (key second)) =
      others.mergeSort fun first second ↦ le (key first) (key second) := by
  have hitems := List.mergeSort_perm items fun first second ↦ le (key first) (key second)
  have hothers := List.mergeSort_perm others fun first second ↦ le (key first) (key second)
  refine (hitems.trans (h.trans hothers.symm)).eq_of_pairwise ?_ (pairwise_mergeSort key items)
    (pairwise_mergeSort key others)
  intro first second hfirst hsecond hle hge
  exact hkey first (hitems.mem_iff.mp hfirst) second
    (h.mem_iff.mpr (hothers.mem_iff.mp hsecond)) (List.le_antisymm hle hge)

end LineScript.Bytes
