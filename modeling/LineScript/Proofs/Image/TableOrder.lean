import LineScript.Proofs.Image.Canonical

/-!
The order of the function table. A table is a map, and the order in which it lists its functions is
an accident. It leaves no trace in what is written, in the first fault and in the listing: each of
them goes through the functions in the order of their names, be it those of the whole table, those
of one address, or those that were gathered for an address while going through the table.
-/

set_option autoImplicit false
set_option relaxedAutoImplicit false

namespace LineScript

open Bytes

/-! ### Labels -/

namespace Labels

theorem above_cons (target : UInt32) (names : List Bytes) (labels : Labels) (address : UInt32) :
    Labels.above ((target, names) :: labels) address =
      if target = address then names else labels.above address := by
  rw [above, List.lookup_cons]
  split_ifs with htarget
  · simp [htarget]
  · have hbeq : (address == target) = false := by simpa using Ne.symm htarget
    rw [hbeq]
    rfl

/-- A name is added after those of its address, and other addresses keep what they have. -/
theorem above_add (name : Bytes) (target address : UInt32) (labels : Labels) :
    (labels.add name target).above address =
      labels.above address ++ if target = address then [name] else [] := by
  induction labels with
  | nil =>
    rw [add, above_cons]
    rfl
  | cons entry rest ih =>
    obtain ⟨other, names⟩ := entry
    rw [add]
    split_ifs <;> simp_all [above_cons]

/-- Gathering functions puts the names of an address one after the other. -/
theorem above_foldl_add (entries : List (Bytes × UInt32)) (labels : Labels) (address : UInt32) :
    (entries.foldl (fun labels (name, address) ↦ labels.add name address) labels).above address =
      labels.above address ++ (entries.filter (·.2 == address)).map Prod.fst := by
  induction entries generalizing labels with
  | nil => simp
  | cons entry entries ih =>
    obtain ⟨name, target⟩ := entry
    rw [List.foldl_cons, ih, above_add, List.append_assoc]
    by_cases htarget : target = address <;> simp [htarget]

theorem above_mergeSort (labels : Labels) (address : UInt32) :
    Labels.above (labels.map fun (address, names) ↦ (address, names.mergeSort Bytes.le)) address =
      (labels.above address).mergeSort Bytes.le := by
  induction labels with
  | nil => exact List.mergeSort_nil.symm
  | cons entry rest ih =>
    obtain ⟨other, names⟩ := entry
    rw [List.map_cons, above_cons, above_cons, ih]
    split_ifs <;> rfl

end Labels

namespace FunctionTable

/-- The labels of a table at an address are the functions there. -/
theorem above_labels (table : FunctionTable) (address : UInt32) :
    table.labels.above address = table.namesAt address := by
  rw [labels, Labels.above_mergeSort, Labels.above_foldl_add]
  rfl

theorem mem_namesAt (table : FunctionTable) (name : Bytes) (address : UInt32) :
    name ∈ table.namesAt address ↔ (name, address) ∈ table.entries := by
  rw [namesAt, (List.mergeSort_perm _ _).mem_iff]
  simp

variable {first second : FunctionTable}

theorem namesAt_congr (h : ∀ name, first.address? name = second.address? name) (address : UInt32) :
    first.namesAt address = second.namesAt address := by
  refine mergeSort_of_perm id (((perm_entries h).filter _).map _) ?_
  intro name _ other _ hname
  exact hname

end FunctionTable

/-! ### Images -/

namespace Image

/-- Tables that list the same functions in another order make the same image. -/
theorem same_of_perm (image : Image) {table : FunctionTable}
    (h : table.entries.Perm image.functions.entries) :
    Same { image with functions := table } image where
  init := rfl
  program := rfl
  numbers := rfl
  texts := rfl
  storage := rfl
  functions := FunctionTable.address?_congr fun _ ↦ h.mem_iff
  ram := rfl

namespace Same

variable {first second : Image}

/-- The first fault is the same, and so is the function that it names. -/
theorem fault?_eq (h : first.Same second) : first.fault? = second.fault? := by
  have hoperands : ∀ tag, first.operands? tag = second.operands? tag := by
    intro tag
    cases tag with
    | constant type => cases type <;> simp [operands?, h.numbers, h.texts]
    | storage arity type => simp [operands?, h.storage]
    | ram ramClass => simp [operands?, h.ram]
    | _ => rfl
  have hcells := cellsFault?_congr hoperands
  have hsorted := FunctionTable.sorted_congr h.functions
  simp only [fault?, functionFault?, hcells, hsorted, h.init, h.program]

/-- An image can be written when the same one can, and gives the same bytes. -/
theorem write_eq (h : first.Same second) : first.write = second.write := by
  have hlength : first.functions.entries.length = second.functions.entries.length :=
    (FunctionTable.perm_entries h.functions).length_eq
  have hsorted := FunctionTable.sorted_congr h.functions
  have herror : first.writeError? = second.writeError? := by
    simp only [writeError?, formatError?, counts, h.fault?_eq, h.init, h.program, h.numbers,
      h.texts, h.storage, h.ram, hlength, hsorted]
  rw [write, write, herror, h.bytes_eq]

theorem row_eq (h : first.Same second) : first.row = second.row := by
  have hnames := FunctionTable.namesAt_congr h.functions
  have hconstant : first.constant = second.constant := by
    funext cell
    simp only [constant, h.numbers, h.texts]
  have hremark : first.remark? = second.remark? := by
    funext cell
    simp only [remark?, hconstant, hnames, h.storage]
  funext index cell
  simp only [row, hremark]

theorem listing_eq (h : first.Same second) : first.listing = second.listing := by
  have hlabels : first.functions.labels.above = second.functions.labels.above := by
    funext address
    rw [FunctionTable.above_labels, FunctionTable.above_labels,
      FunctionTable.namesAt_congr h.functions]
  have hsummary : first.summary = second.summary := by
    unfold summary heading
    rw [h.numbers, h.texts, h.storage, h.ram]
  rw [listing, listing, hsummary, h.row_eq, h.init, h.program]
  simp only [hlabels]

end Same

/-- Listing the functions of an image in another order changes neither the bytes that are written
nor the first fault nor the listing. -/
theorem outputs_of_perm (image : Image) (table : FunctionTable)
    (h : table.entries.Perm image.functions.entries) :
    (∀ bytes, write { image with functions := table } = .ok bytes ↔ image.write = .ok bytes) ∧
      fault? { image with functions := table } = image.fault? ∧
      listing { image with functions := table } = image.listing := by
  have hsame := image.same_of_perm h
  exact ⟨fun bytes ↦ by rw [hsame.write_eq], hsame.fault?_eq, hsame.listing_eq⟩

/-- An image with two functions at one address, listed out of order. -/
def crossroads : Image where
  program := [⟨0x25, 1⟩, ⟨0x25, 0⟩, ⟨0x00, 0⟩]
  functions :=
    { entries := [(utf8 "b", 1), (utf8 "main", 0), (utf8 "a", 1)], distinct := by decide }

/-- Its functions in the order of their names. -/
def crossroadsTable : FunctionTable where
  entries := [(utf8 "a", 1), (utf8 "b", 1), (utf8 "main", 0)]
  distinct := by decide

theorem outputs_of_perm_crossroads :
    crossroadsTable.entries.Perm crossroads.functions.entries ∧
      crossroads.write = .ok crossroads.bytes ∧
      write { crossroads with functions := crossroadsTable } = .ok crossroads.bytes ∧
      fault? { crossroads with functions := crossroadsTable } = crossroads.fault? ∧
      listing { crossroads with functions := crossroadsTable } = crossroads.listing := by
  have hperm : crossroadsTable.entries.Perm crossroads.functions.entries := by decide
  have hwritable : crossroads.Writable :=
    { storage := by decide
      functions := by decide +kernel
      texts := by decide
      counts := by decide
      cells := by decide
      verified := by
        rw [fault?_eq_none_iff, functionFault?_eq_none_iff]
        decide }
  have hwrite : crossroads.write = .ok crossroads.bytes :=
    (write_eq_ok_iff _ _).mpr ⟨hwritable, rfl⟩
  obtain ⟨hwrites, houtputs⟩ := outputs_of_perm crossroads crossroadsTable hperm
  exact ⟨hperm, hwrite, (hwrites _).mpr hwrite, houtputs⟩

end Image

end LineScript
