import LineScript.Image.Writer
import Mathlib.Data.List.Nodup

/-!
Function tables as maps, and the images that can be written. A table is known by the pairs it holds,
so tables with the same pairs in different orders give every function the same address. Writing
succeeds exactly for the images whose names, texts, counts and cells fit the format and that verify.
-/

set_option autoImplicit false
set_option relaxedAutoImplicit false

namespace LineScript

namespace FunctionTable

theorem address?_eq_some_iff (table : FunctionTable) (name : Bytes) (address : UInt32) :
    table.address? name = some address ↔ (name, address) ∈ table.entries := by
  obtain ⟨entries, hdistinct⟩ := table
  simp only [address?]
  induction entries with
  | nil => simp
  | cons entry entries ih =>
    obtain ⟨other, target⟩ := entry
    rw [List.map_cons, List.nodup_cons] at hdistinct
    rw [List.lookup_cons, List.mem_cons, Prod.mk.injEq]
    by_cases hname : name = other
    · subst hname
      have habsent : (name, address) ∉ entries :=
        fun hmem ↦ hdistinct.1 (List.mem_map.mpr ⟨_, hmem, rfl⟩)
      simp [habsent, eq_comm]
    · have hbeq : (name == other) = false := by simpa using hname
      rw [hbeq]
      simp [hname, ih hdistinct.2]

/-- Tables that hold the same pairs give every function the same address. -/
theorem address?_congr {first second : FunctionTable}
    (h : ∀ entry, entry ∈ first.entries ↔ entry ∈ second.entries) (name : Bytes) :
    first.address? name = second.address? name := by
  ext address
  rw [address?_eq_some_iff, address?_eq_some_iff, h]

theorem sorted_perm (table : FunctionTable) : table.sorted.Perm table.entries :=
  List.mergeSort_perm _ _

theorem mem_sorted (table : FunctionTable) (entry : Bytes × UInt32) :
    entry ∈ table.sorted ↔ entry ∈ table.entries :=
  table.sorted_perm.mem_iff

theorem distinct_sorted (table : FunctionTable) : (table.sorted.map Prod.fst).Nodup :=
  (table.sorted_perm.map Prod.fst).nodup_iff.mpr table.distinct

theorem length_sorted (table : FunctionTable) : table.sorted.length = table.entries.length :=
  table.sorted_perm.length_eq

theorem exists_declare? {table : FunctionTable} {name : Bytes} (h : name ∉ table.names)
    (address : UInt32) :
    ∃ larger, table.declare? name address = some larger ∧
      larger.entries = table.entries ++ [(name, address)] := by
  rw [declare?, dif_neg h]
  exact ⟨_, rfl, rfl⟩

theorem entries_declare? {table larger : FunctionTable} {name : Bytes} {address : UInt32}
    (h : table.declare? name address = some larger) :
    larger.entries = table.entries ++ [(name, address)] := by
  unfold declare? at h
  split_ifs at h
  cases h
  rfl

end FunctionTable

namespace Image

/-- The images that the format can hold and that verify. -/
structure Writable (image : Image) : Prop where
  storage : ∀ name ∈ image.storage, Text.isName name = true
  functions : ∀ entry ∈ image.functions.entries, Text.isName entry.1 = true
  texts : ∀ text ∈ image.texts, text.length ≤ imageTextLimit ∧ 0 ∉ text
  counts : ∀ entry ∈ image.counts, entry.2 ≤ maxCount
  cells : ∀ cell ∈ image.init ++ image.program, cell.fits = true
  verified : image.fault? = none

theorem cellsFault?_eq_none_iff (image : Image) (codeSection : Section) (index : Nat)
    (cells : List Cell) :
    image.cellsFault? codeSection index cells = none ↔
      ∀ cell ∈ cells, image.cellFault? cell = none := by
  induction cells generalizing index with
  | nil => simp [cellsFault?]
  | cons cell rest ih =>
    rw [cellsFault?, List.forall_mem_cons]
    cases image.cellFault? cell with
    | none => simp [ih]
    | some fault => simp

theorem textError?_eq_none_iff (index : Nat) (texts : List Bytes) :
    textError? index texts = none ↔
      ∀ text ∈ texts, text.length ≤ imageTextLimit ∧ 0 ∉ text := by
  induction texts generalizing index with
  | nil => simp [textError?]
  | cons text rest ih =>
    rw [textError?, List.forall_mem_cons]
    split_ifs with hlong hzero
    · simp [Nat.not_le.mpr hlong]
    · rw [List.contains_iff_mem] at hzero
      simp [hzero]
    · rw [List.contains_iff_mem] at hzero
      simp [ih, Nat.not_lt.mp hlong, hzero]

theorem formatError?_eq_none_iff (image : Image) :
    image.formatError? = none ↔
      (∀ name ∈ image.storage, Text.isName name = true) ∧
      (∀ entry ∈ image.functions.entries, Text.isName entry.1 = true) ∧
      (∀ text ∈ image.texts, text.length ≤ imageTextLimit ∧ 0 ∉ text) ∧
      (∀ entry ∈ image.counts, entry.2 ≤ maxCount) ∧
      ∀ cell ∈ image.init ++ image.program, cell.fits = true := by
  simp [formatError?, textError?_eq_none_iff, FunctionTable.mem_sorted, or_imp, forall_and]

theorem writeError?_eq_none_iff (image : Image) : image.writeError? = none ↔ image.Writable := by
  have hsplit : image.writeError? = none ↔ image.formatError? = none ∧ image.fault? = none := by
    simp [writeError?]
  rw [hsplit, formatError?_eq_none_iff]
  constructor
  · rintro ⟨⟨hstorage, hfunctions, htexts, hcounts, hcells⟩, hverified⟩
    exact ⟨hstorage, hfunctions, htexts, hcounts, hcells, hverified⟩
  · intro h
    exact ⟨⟨h.storage, h.functions, h.texts, h.counts, h.cells⟩, h.verified⟩

/-- An image is written exactly when it is writable, and its bytes are then those of the format. -/
theorem write_eq_ok_iff (image : Image) (bytes : Bytes) :
    image.write = .ok bytes ↔ image.Writable ∧ bytes = image.bytes := by
  rw [← writeError?_eq_none_iff, write]
  cases image.writeError? with
  | none => simp [eq_comm]
  | some error => simp

end Image

end LineScript
