import LineScript.Proofs.Image.ListingRows

/-!
What a listing shows with the cells. The labels above a row of the program section are the functions
that start there, in byte order, and a call shows the first of the functions at its address. The
labels are gathered by going through the table once and the remark of a call by a search of its own,
but both name the same function first. In an image that verifies, every reference to a constant or
to the storage shows what it refers to.
-/

set_option autoImplicit false
set_option relaxedAutoImplicit false

namespace LineScript

open Bytes

/-! ### Functions at an address -/

namespace FunctionTable

/-- The functions at an address in byte order, each once. -/
structure ListsAt (table : FunctionTable) (address : UInt32) (names : List Bytes) : Prop where
  ordered : names.Pairwise (· < ·)
  mem_iff : ∀ name, name ∈ names ↔ table.address? name = some address

/-- The first function at an address in byte order, if there are functions at that address. -/
def IsFirstAt (table : FunctionTable) (address : UInt32) : Option Bytes → Prop
  | some name => table.address? name = some address ∧
      ∀ other, table.address? other = some address → name ≤ other
  | none => ∀ name, table.address? name ≠ some address

theorem listsAt_namesAt (table : FunctionTable) (address : UInt32) :
    table.ListsAt address (table.namesAt address) := by
  constructor
  · have hsorted : (table.namesAt address).Pairwise (· ≤ ·) := pairwise_mergeSort id _
    have hdistinct : (table.namesAt address).Nodup := by
      rw [namesAt, (List.mergeSort_perm _ _).nodup_iff]
      exact table.distinct.sublist (List.filter_sublist.map Prod.fst)
    refine hsorted.imp₂ (fun first second hle hne ↦ ?_) hdistinct
    exact Std.lt_of_le_of_ne hle hne
  · intro name
    rw [mem_namesAt, address?_eq_some_iff]

theorem ListsAt.isFirstAt_head? {table : FunctionTable} {address : UInt32} {names : List Bytes}
    (h : table.ListsAt address names) : table.IsFirstAt address names.head? := by
  cases names with
  | nil =>
    intro name hname
    exact List.not_mem_nil ((h.mem_iff name).mpr hname)
  | cons first rest =>
    refine ⟨(h.mem_iff first).mp List.mem_cons_self, fun other hother ↦ ?_⟩
    rcases List.mem_cons.mp ((h.mem_iff other).mpr hother) with rfl | hrest
    · exact List.le_refl _
    · exact Std.le_of_lt ((List.pairwise_cons.mp h.ordered).1 other hrest)

end FunctionTable

/-! ### Listed cells -/

/-- A cell with what a listing shows with it: the labels above its row and the remark after it. -/
structure ListedCell where
  cell : Cell
  labels : List Bytes
  remark? : Option Bytes

namespace ListedCell

/-- The rows of a cell at an address. -/
def rows (listed : ListedCell) (index : Nat) : List Bytes :=
  listed.labels.map (· ++ utf8 ":") ++
    [utf8 "  " ++ padded 0x30 4 (decimal index) ++ utf8 "  " ++ listed.cell.text ++
      match listed.remark? with
      | some text => utf8 "  ; " ++ text
      | none => []]

/-- The rows of cells that stand one after the other from an address on. -/
def allRows (start : Nat) (cells : List ListedCell) : List Bytes :=
  (cells.zipIdx start).flatMap fun (listed, index) ↦ listed.rows index

theorem allRows_cons (start : Nat) (listed : ListedCell) (cells : List ListedCell) :
    allRows start (listed :: cells) = listed.rows start ++ allRows (start + 1) cells :=
  rfl

end ListedCell

namespace Image

/-- What a listing shows with the cells of an image. -/
structure Annotates (image : Image) (init program : List ListedCell) : Prop where
  init_cells : init.map ListedCell.cell = image.init
  program_cells : program.map ListedCell.cell = image.program
  init_labels : ∀ listed ∈ init, listed.labels = []
  /-- Above a row stand the functions at its address. -/
  program_labels : ∀ index listed, program[index]? = some listed →
    image.functions.ListsAt (UInt32.ofNat index) listed.labels
  /-- The functions that start inside the program section have labels, and no others do. -/
  mem_labels : ∀ name, name ∈ program.flatMap ListedCell.labels ↔
    ∃ address, image.functions.address? name = some address ∧
      address.toNat < image.program.length
  /-- No function has two labels. Beyond the rows that 32 bits can address the labels would start
  anew. -/
  labels_once : image.program.length ≤ 2 ^ 32 → (program.flatMap ListedCell.labels).Nodup
  /-- A call shows the first function at its address, which is the first label there. -/
  calls : ∀ listed ∈ init ++ program, listed.cell.code = Tag.userFunction.code →
    image.functions.IsFirstAt listed.cell.value listed.remark? ∧
      ∀ target, program[listed.cell.value.toNat]? = some target →
        listed.remark? = target.labels.head?
  constants : image.fault? = none → ∀ listed ∈ init ++ program, ∀ type,
    listed.cell.code = (Tag.constant type).code →
      ∃ word, image.constant listed.cell = .ok word ∧ listed.remark? = some word.render
  storage : image.fault? = none → ∀ listed ∈ init ++ program, ∀ arity type,
    listed.cell.code = (Tag.storage arity type).code →
      ∃ name, image.storage[listed.cell.value.toNat]? = some name ∧ listed.remark? = some name

/-! ### Labels -/

section Labels

variable {image : Image} {program : List ListedCell}

theorem mem_labels_iff (hlength : program.length = image.program.length)
    (hlabels : ∀ index listed, program[index]? = some listed →
      image.functions.ListsAt (UInt32.ofNat index) listed.labels) (name : Bytes) :
    name ∈ program.flatMap ListedCell.labels ↔
      ∃ address, image.functions.address? name = some address ∧
        address.toNat < image.program.length := by
  rw [List.mem_flatMap, ← hlength]
  constructor
  · rintro ⟨listed, hlisted, hname⟩
    obtain ⟨index, hindex⟩ := List.mem_iff_getElem?.mp hlisted
    refine ⟨_, ((hlabels index listed hindex).mem_iff name).mp hname, ?_⟩
    rw [UInt32.toNat_ofNat']
    exact Nat.lt_of_le_of_lt (Nat.mod_le _ _) (List.getElem?_eq_some_iff.mp hindex).1
  · rintro ⟨address, haddress, hlt⟩
    have hrow := List.getElem?_eq_getElem hlt
    refine ⟨_, List.mem_of_getElem? hrow, ((hlabels _ _ hrow).mem_iff name).mpr ?_⟩
    rwa [UInt32.ofNat_toNat]

/-- Rows with different addresses have no label in common. -/
theorem nodup_labels (hsize : program.length ≤ 2 ^ 32)
    (hlabels : ∀ index listed, program[index]? = some listed →
      image.functions.ListsAt (UInt32.ofNat index) listed.labels) :
    (program.flatMap ListedCell.labels).Nodup := by
  rw [List.nodup_flatMap]
  constructor
  · intro listed hlisted
    obtain ⟨index, hindex⟩ := List.mem_iff_getElem?.mp hlisted
    exact (hlabels index listed hindex).ordered.imp fun hlt ↦ Std.ne_of_lt hlt
  · rw [List.pairwise_iff_getElem]
    intro i j hi hj hlt name hfirst hsecond
    have hrows := fun {k : Nat} (hk : k < program.length) ↦
      hlabels k _ (List.getElem?_eq_getElem hk)
    have haddress := ((hrows hi).mem_iff name).mp hfirst
    rw [((hrows hj).mem_iff name).mp hsecond, Option.some_inj, ← UInt32.toNat_inj,
      UInt32.toNat_ofNat', UInt32.toNat_ofNat'] at haddress
    omega

end Labels

/-! ### Remarks -/

section Remarks

variable {image : Image} {cell : Cell}

theorem remark?_of_call (h : cell.code = Tag.userFunction.code) :
    image.remark? cell = (image.functions.namesAt cell.value).head? := by
  rw [remark?, (cell.tag?_eq_some_iff _).mpr h]

theorem exists_remark?_of_constant (haccepts : image.Accepts cell) {type : ValueType}
    (h : cell.code = (Tag.constant type).code) :
    ∃ word, image.constant cell = .ok word ∧ image.remark? cell = some word.render := by
  obtain ⟨word, hword⟩ := haccepts.exists_constant h
  refine ⟨word, hword, ?_⟩
  rw [remark?, (cell.tag?_eq_some_iff _).mpr h, hword]
  rfl

theorem exists_remark?_of_storage (haccepts : image.Accepts cell) {arity : Arity} {type : ValueType}
    (h : cell.code = (Tag.storage arity type).code) :
    ∃ name, image.storage[cell.value.toNat]? = some name ∧ image.remark? cell = some name := by
  obtain ⟨name, hname⟩ := haccepts.exists_storage h
  refine ⟨name, hname, ?_⟩
  rw [remark?, (cell.tag?_eq_some_iff _).mpr h]
  exact hname

end Remarks

/-! ### Listings -/

/-- The cells of a section as they are listed from an address on. -/
def listed (image : Image) (names : Nat → List Bytes) (start : Nat) (cells : List Cell) :
    List ListedCell :=
  (cells.zipIdx start).map fun (cell, index) ↦ ⟨cell, names index, image.remark? cell⟩

section Listed

variable (image : Image) (names : Nat → List Bytes)

theorem map_cell_listed (start : Nat) (cells : List Cell) :
    (image.listed names start cells).map ListedCell.cell = cells := by
  rw [listed, List.map_map]
  exact List.zipIdx_map_fst start cells

theorem getElem?_listed {start index : Nat} {cells : List Cell} {shown : ListedCell}
    (h : (image.listed names start cells)[index]? = some shown) :
    shown.labels = names (start + index) := by
  rw [listed, List.getElem?_map, List.getElem?_zipIdx, Option.map_map,
    Option.map_eq_some_iff] at h
  obtain ⟨cell, -, rfl⟩ := h
  rfl

theorem mem_listed {start : Nat} {cells : List Cell} {shown : ListedCell}
    (h : shown ∈ image.listed names start cells) :
    shown.cell ∈ cells ∧ shown.remark? = image.remark? shown.cell := by
  obtain ⟨⟨cell, index⟩, hentry, rfl⟩ := List.mem_map.mp h
  exact ⟨List.fst_mem_of_mem_zipIdx hentry, rfl⟩

theorem sectionRows_eq_allRows (start : Nat) (cells : List Cell) :
    image.sectionRows (fun index ↦ (names index).map (· ++ [0x3A])) start cells =
      ListedCell.allRows start (image.listed names start cells) := by
  induction cells generalizing start with
  | nil => rfl
  | cons cell rest ih =>
    have hcons : image.listed names start (cell :: rest) =
        ⟨cell, names start, image.remark? cell⟩ :: image.listed names (start + 1) rest :=
      rfl
    rw [sectionRows_cons, ih, hcons, ListedCell.allRows_cons, ListedCell.rows, List.append_assoc]
    rfl

end Listed

/-- The cells of the init section as they are listed, without labels. -/
def listedInit (image : Image) : List ListedCell :=
  image.listed (fun _ ↦ []) 0 image.init

/-- The cells of the program section as they are listed. -/
def listedProgram (image : Image) : List ListedCell :=
  image.listed (fun index ↦ image.functions.namesAt (UInt32.ofNat index)) 0 image.program

theorem listsAt_listedProgram (image : Image) (index : Nat) (shown : ListedCell)
    (h : image.listedProgram[index]? = some shown) :
    image.functions.ListsAt (UInt32.ofNat index) shown.labels := by
  rw [getElem?_listed _ _ h, Nat.zero_add]
  exact image.functions.listsAt_namesAt _

theorem mem_listed_append (image : Image) {shown : ListedCell}
    (h : shown ∈ image.listedInit ++ image.listedProgram) :
    (∃ codeSection, shown.cell ∈ image.code codeSection) ∧
      shown.remark? = image.remark? shown.cell := by
  rcases List.mem_append.mp h with hinit | hprogram
  · exact (mem_listed _ _ hinit).imp_left fun hcell ↦ ⟨.init, hcell⟩
  · exact (mem_listed _ _ hprogram).imp_left fun hcell ↦ ⟨.program, hcell⟩

theorem annotates_listed (image : Image) :
    image.Annotates image.listedInit image.listedProgram := by
  have hcells := image.map_cell_listed (fun index ↦ image.functions.namesAt (UInt32.ofNat index)) 0
    image.program
  have hlength : image.listedProgram.length = image.program.length := by
    rw [← congrArg List.length hcells, List.length_map]
    rfl
  have haccepts : image.fault? = none → ∀ shown ∈ image.listedInit ++ image.listedProgram,
      image.Accepts shown.cell := by
    intro hverified shown hshown
    obtain ⟨⟨codeSection, hcell⟩, -⟩ := image.mem_listed_append hshown
    exact (image.fault?_eq_none_iff_verified.mp hverified).cells codeSection _ hcell
  constructor
  case init_cells => exact image.map_cell_listed _ 0 image.init
  case program_cells => exact hcells
  case init_labels =>
    intro shown hshown
    obtain ⟨index, hindex⟩ := List.mem_iff_getElem?.mp hshown
    exact getElem?_listed _ _ hindex
  case program_labels => exact image.listsAt_listedProgram
  case mem_labels => exact mem_labels_iff hlength image.listsAt_listedProgram
  case labels_once =>
    intro hsize
    exact nodup_labels (hlength ▸ hsize) image.listsAt_listedProgram
  case calls =>
    intro shown hshown hcode
    have hremark := (image.mem_listed_append hshown).2.trans (remark?_of_call hcode)
    rw [hremark]
    refine ⟨(image.functions.listsAt_namesAt _).isFirstAt_head?, fun target htarget ↦ ?_⟩
    rw [getElem?_listed _ _ htarget, Nat.zero_add, UInt32.ofNat_toNat]
  case constants =>
    intro hverified shown hshown type hcode
    rw [(image.mem_listed_append hshown).2]
    exact exists_remark?_of_constant (haccepts hverified shown hshown) hcode
  case storage =>
    intro hverified shown hshown arity type hcode
    rw [(image.mem_listed_append hshown).2]
    exact exists_remark?_of_storage (haccepts hverified shown hshown) hcode

/-- After its heading a listing consists of rows: the names of the storage, and for each section its
title and a row for each cell, which shows with the cell what belongs to it. -/
theorem listing_annotates (image : Image) :
    ∃ init program, image.Annotates init program ∧
      image.listing = image.heading ++
        (storageRows 0 image.storage ++
          utf8 "init:" :: (ListedCell.allRows 0 init ++
            utf8 "program:" :: ListedCell.allRows 0 program)).flatMap (· ++ [0x0A]) := by
  refine ⟨_, _, image.annotates_listed, ?_⟩
  rw [listing_eq_rows, rows, listedInit, listedProgram, ← sectionRows_eq_allRows,
    ← sectionRows_eq_allRows]
  rfl

end Image

end LineScript
