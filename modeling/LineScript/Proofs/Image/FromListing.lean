import LineScript.Proofs.Image.ListingRows

/-!
What a listing tells about its image. The code, the storage, the functions and the sizes of the
memory of an image that can be written can be told from its listing: no name, text or remark passes
for another row. Rows of the storage start with a semicolon and rows of cells with a space, so each
title is known by its place. Names have no space in them, so a label is never taken for a cell,
though it may well read like a title.
-/

set_option autoImplicit false
set_option relaxedAutoImplicit false

namespace LineScript

open Bytes

namespace Image

variable {first second : Image}

/-! ### The heading -/

/-- A number is known from the whole when the same words follow it. -/
theorem decimal_literal_inj {m n : Nat} {literal tail rest : Bytes}
    (hliteral : literal.head?.any (!isDigit ·) = true)
    (h : decimal m ++ (literal ++ tail) = decimal n ++ (literal ++ rest)) :
    m = n ∧ tail = rest := by
  cases literal with
  | nil => cases hliteral
  | cons byte literal =>
    have hbyte : isDigit byte = false := by simpa using hliteral
    obtain ⟨hnumbers, hrest⟩ := decimal_append_inj (by simpa using hbyte) (by simpa using hbyte) h
    exact ⟨hnumbers, List.append_cancel_left hrest⟩

theorem heading_append_inj {tail rest : Bytes}
    (h : first.heading ++ tail = second.heading ++ rest) :
    first.ram = second.ram ∧ tail = rest := by
  unfold heading at h
  simp only [List.append_assoc, List.append_cancel_left_eq] at h
  obtain ⟨-, h⟩ := decimal_literal_inj rfl h
  obtain ⟨-, h⟩ := decimal_literal_inj rfl h
  obtain ⟨hnumericVariables, h⟩ := decimal_literal_inj rfl h
  obtain ⟨htextVariables, h⟩ := decimal_literal_inj rfl h
  obtain ⟨hnumericArrays, h⟩ := decimal_literal_inj rfl h
  obtain ⟨htextArrays, h⟩ := decimal_literal_inj rfl h
  obtain ⟨hdataReferences, h⟩ := decimal_literal_inj rfl h
  rw [UInt32.toNat_inj] at *
  refine ⟨?_, h⟩
  generalize first.ram = ram at *
  generalize second.ram = other at *
  cases ram
  cases other
  simp_all only

/-! ### Rows of cells -/

section Cells

variable {cell other : Cell} {tag otherTag : Tag}

/-- The brace after the name of a meaning tells where the name ends, and the brace after the value
tells where the value ends, whatever remark follows. -/
theorem cellText_append_inj (hcell : cell.tag? = some tag) (hother : other.tag? = some otherTag)
    {tail rest : Bytes} (h : cell.text ++ tail = other.text ++ rest) : cell = other := by
  have hname : ∀ tag : Tag, ∀ byte ∈ tag.name, (byte != 0x7B) = true := by
    intro tag byte hbyte
    rw [bne_iff_ne]
    rintro rfl
    exact tag.notMem_name.2 hbyte
  rw [Cell.text_eq hcell, Cell.text_eq hother] at h
  rw [List.append_assoc, List.append_assoc, List.cons_append, List.cons_append, List.append_assoc,
    List.append_assoc] at h
  obtain ⟨hnames, hvalues⟩ := append_inj_of_span (hname tag) (hname otherTag) (by simp) (by simp) h
  obtain ⟨hvalue, -⟩ := decimal_literal_inj rfl (List.cons.inj hvalues).2
  obtain rfl := Tag.name_injective hnames
  have hcode : cell.code = other.code :=
    (Tag.code_of_ofCode? hcell).symm.trans (Tag.code_of_ofCode? hother)
  cases cell
  cases other
  simp_all only [UInt32.toNat_inj]

theorem cellRow_inj (hcell : cell.tag? = some tag) (hother : other.tag? = some otherTag)
    {index : Nat} (h : first.cellRow index cell = second.cellRow index other) : cell = other := by
  unfold cellRow at h
  simp only [List.append_assoc, List.append_cancel_left_eq] at h
  exact cellText_append_inj hcell hother h

end Cells

/-! ### Sections -/

theorem head?_cellRow (image : Image) (index : Nat) (cell : Cell) :
    (image.cellRow index cell).head? = some 0x20 :=
  rfl

/-- When labels do not start with a space, the rows of a section tell its cells and the labels
above each. -/
theorem sectionRows_inj {labels otherLabels : Nat → List Bytes}
    (hlabels : ∀ index, ∀ row ∈ labels index, (row.head? != some 0x20) = true)
    (hotherLabels : ∀ index, ∀ row ∈ otherLabels index, (row.head? != some 0x20) = true)
    {cells others : List Cell} (hcells : ∀ cell ∈ cells, ∃ tag, cell.tag? = some tag)
    (hothers : ∀ cell ∈ others, ∃ tag, cell.tag? = some tag) {start : Nat}
    (h : first.sectionRows labels start cells = second.sectionRows otherLabels start others) :
    cells = others ∧
      ∀ index, start ≤ index → index < start + cells.length →
        labels index = otherLabels index := by
  induction cells generalizing others start with
  | nil =>
    cases others with
    | nil => exact ⟨rfl, fun index hfrom hto ↦ absurd hfrom (Nat.not_le.mpr hto)⟩
    | cons other others =>
      rw [sectionRows_cons] at h
      simp [sectionRows] at h
  | cons cell cells ih =>
    cases others with
    | nil =>
      rw [sectionRows_cons] at h
      simp [sectionRows] at h
    | cons other others =>
      rw [List.forall_mem_cons] at hcells hothers
      obtain ⟨tag, htag⟩ := hcells.1
      obtain ⟨otherTag, hotherTag⟩ := hothers.1
      rw [sectionRows_cons, sectionRows_cons] at h
      obtain ⟨hstart, hrows⟩ :=
        append_inj_of_span (hlabels start) (hotherLabels start) (by simp [head?_cellRow])
          (by simp [head?_cellRow]) h
      obtain ⟨hrow, hrest⟩ := List.cons.inj hrows
      obtain rfl := cellRow_inj htag hotherTag hrow
      obtain ⟨rfl, hlater⟩ := ih hcells.2 hothers.2 hrest
      refine ⟨rfl, fun index hfrom hto ↦ ?_⟩
      rcases Nat.eq_or_lt_of_le hfrom with rfl | hfrom
      · exact hstart
      · exact hlater index hfrom (by simpa [Nat.add_right_comm, Nat.add_assoc] using hto)

theorem storageRows_inj {names others : List Bytes} {start : Nat}
    (h : storageRows start names = storageRows start others) : names = others := by
  induction names generalizing others start with
  | nil =>
    cases others with
    | nil => rfl
    | cons other others => cases h
  | cons name names ih =>
    cases others with
    | nil => cases h
    | cons other others =>
      obtain ⟨hrow, hrest⟩ := List.cons.inj h
      rw [List.append_cancel_left hrow, ih hrest]

/-! ### The whole listing -/

theorem rows_eq_of_listing_eq (hfirst : first.Writable) (hsecond : second.Writable)
    (h : first.listing = second.listing) : first.ram = second.ram ∧ first.rows = second.rows := by
  rw [listing_eq_rows, listing_eq_rows] at h
  obtain ⟨hram, hbytes⟩ := heading_append_inj h
  have hcut := fun {image : Image} (himage : image.Writable) ↦
    IsCut.cutLines_eq ⟨(List.append_nil _).symm, newline_notMem_rows himage, List.not_mem_nil⟩
  refine ⟨hram, ?_⟩
  have hrows := (hcut hfirst).symm.trans ((congrArg cutLines hbytes).trans (hcut hsecond))
  exact congrArg Prod.fst hrows

/-- Rows with the same first byte end where a title with another first byte stands. -/
theorem rows_append_inj {byte : UInt8} {title : Bytes} {above others below rest : List Bytes}
    (habove : ∀ row ∈ above, (row.head? == some byte) = true)
    (hothers : ∀ row ∈ others, (row.head? == some byte) = true)
    (htitle : (title.head? == some byte) = false)
    (h : above ++ title :: below = others ++ title :: rest) : above = others ∧ below = rest := by
  obtain ⟨hrows, hbelow⟩ :=
    append_inj_of_span habove hothers (by simpa using htitle) (by simpa using htitle) h
  exact ⟨hrows, (List.cons.inj hbelow).2⟩

theorem head?_of_mem_storageRows {start : Nat} {names : List Bytes} :
    ∀ row ∈ storageRows start names, (row.head? == some 0x3B) = true := by
  intro row hrow
  obtain ⟨⟨name, index⟩, -, rfl⟩ := List.mem_map.mp hrow
  rfl

theorem head?_of_mem_sectionRows {start : Nat} {cells : List Cell} :
    ∀ row ∈ first.sectionRows (fun _ ↦ []) start cells, (row.head? == some 0x20) = true := by
  intro row hrow
  obtain ⟨⟨cell, index⟩, -, hrow⟩ := List.mem_flatMap.mp hrow
  rw [List.mem_singleton.mp hrow, head?_cellRow]
  rfl

/-- A label starts like the name in it, so not with a space. -/
theorem head?_of_mem_labelRows (hfirst : first.Writable) (index : Nat) :
    ∀ row ∈ first.labelRows index, (row.head? != some 0x20) = true := by
  intro row hrow
  obtain ⟨name, hname, rfl⟩ := exists_name_of_mem_labelRows hfirst hrow
  cases name with
  | nil => cases hname
  | cons byte name =>
    have hspace : 0x20 ∉ byte :: name := Text.notMem_of_isName hname (by decide) (by decide)
    rw [List.mem_cons, not_or] at hspace
    simpa using Ne.symm hspace.1

/-- The rows tell the storage, the code and the functions of each address in the program. -/
theorem rows_inj (hfirst : first.Writable) (hsecond : second.Writable)
    (h : first.rows = second.rows) :
    first.storage = second.storage ∧ first.init = second.init ∧ first.program = second.program ∧
      ∀ index < first.program.length, first.labelRows index = second.labelRows index := by
  have htags : ∀ {image : Image}, image.Writable →
      (∀ cell ∈ image.init, ∃ tag, cell.tag? = some tag) ∧
        ∀ cell ∈ image.program, ∃ tag, cell.tag? = some tag :=
    fun himage ↦ List.forall_mem_append.mp fun _ ↦ himage.exists_tag
  unfold rows at h
  obtain ⟨hstorage, h⟩ := rows_append_inj head?_of_mem_storageRows head?_of_mem_storageRows rfl h
  obtain ⟨hinit, h⟩ := rows_append_inj head?_of_mem_sectionRows head?_of_mem_sectionRows rfl h
  obtain ⟨hprogram, hlabels⟩ :=
    sectionRows_inj (head?_of_mem_labelRows hfirst) (head?_of_mem_labelRows hsecond)
      (htags hfirst).2 (htags hsecond).2 h
  obtain ⟨hinit, -⟩ := sectionRows_inj (by simp) (by simp) (htags hfirst).1 (htags hsecond).1 hinit
  refine ⟨storageRows_inj hstorage, hinit, hprogram, fun index hindex ↦ ?_⟩
  exact hlabels index (Nat.zero_le _) (by rwa [Nat.zero_add])

theorem namesAt_of_labelRows {index : Nat} (h : first.labelRows index = second.labelRows index) :
    first.functions.namesAt (UInt32.ofNat index) = second.functions.namesAt (UInt32.ofNat index) :=
  List.map_injective_iff.mpr (List.append_left_injective [0x3A]) h

/-- Every function of an image that can be written stands above a cell of its program. -/
theorem mem_entries_of_labelRows (hfirst : first.Writable)
    (h : ∀ index < first.program.length, first.labelRows index = second.labelRows index)
    {entry : Bytes × UInt32} (hentry : entry ∈ first.functions.entries) :
    entry ∈ second.functions.entries := by
  obtain ⟨name, address⟩ := entry
  obtain ⟨-, -, hfunctions⟩ := (fault?_eq_none_iff first).mp hfirst.verified
  have haddress : address.toNat < first.program.length :=
    (functionFault?_eq_none_iff first).mp hfunctions _ hentry
  have hnames := namesAt_of_labelRows (h address.toNat haddress)
  rw [UInt32.ofNat_toNat] at hnames
  rwa [← FunctionTable.mem_namesAt, ← hnames, FunctionTable.mem_namesAt]

/-- Images that can be written and have the same listing have the same code, storage, functions and
sizes of memory. Of the constants it shows how many there are and those that the code refers to. -/
theorem code_eq_of_listing_eq {first second : Image} {firstBytes secondBytes : Bytes}
    (hfirst : first.write = .ok firstBytes) (hsecond : second.write = .ok secondBytes)
    (h : first.listing = second.listing) :
    first.init = second.init ∧ first.program = second.program ∧ first.storage = second.storage ∧
      (∀ name, first.functions.address? name = second.functions.address? name) ∧
      first.ram = second.ram := by
  have hfirst := ((write_eq_ok_iff _ _).mp hfirst).1
  have hsecond := ((write_eq_ok_iff _ _).mp hsecond).1
  obtain ⟨hram, hrows⟩ := rows_eq_of_listing_eq hfirst hsecond h
  obtain ⟨hstorage, hinit, hprogram, hlabels⟩ := rows_inj hfirst hsecond hrows
  refine ⟨hinit, hprogram, hstorage, FunctionTable.address?_congr fun entry ↦ ⟨?_, ?_⟩, hram⟩
  · exact mem_entries_of_labelRows hfirst hlabels
  · refine mem_entries_of_labelRows hsecond fun index hindex ↦ (hlabels index ?_).symm
    rwa [hprogram]

/-- An image whose names and text read like the titles of a listing. No cell refers to its
number. -/
def titles (number : Number) : Image where
  init := [⟨131, 0⟩, ⟨140, 0⟩]
  program := [⟨0x25, 1⟩, ⟨0x00, 0⟩]
  numbers := [number]
  texts := [utf8 "\nprogram:\n"]
  storage := [utf8 "init:"]
  functions := { entries := [(utf8 "program", 1), (utf8 "init", 0)], distinct := by decide }

theorem write_titles (number : Number) : (titles number).write = .ok (titles number).bytes := by
  have hzero : (titles ⟨0⟩).Writable :=
    { storage := by decide +kernel
      functions := by decide +kernel
      texts := by decide
      counts := by decide
      cells := by decide
      verified := by
        rw [fault?_eq_none_iff, functionFault?_eq_none_iff]
        decide }
  -- Nothing that decides whether an image can be written reads its numbers.
  exact (write_eq_ok_iff _ _).mpr ⟨{ hzero with }, rfl⟩

theorem code_eq_of_listing_eq_titles :
    (titles ⟨0⟩).numbers ≠ (titles ⟨0x3FF0000000000000⟩).numbers ∧
      (titles ⟨0⟩).listing = (titles ⟨0x3FF0000000000000⟩).listing ∧
      (titles ⟨0⟩).init = (titles ⟨0x3FF0000000000000⟩).init ∧
      (titles ⟨0⟩).program = (titles ⟨0x3FF0000000000000⟩).program := by
  have hlisting : (titles ⟨0⟩).listing = (titles ⟨0x3FF0000000000000⟩).listing := by decide +kernel
  obtain ⟨hinit, hprogram, -⟩ := code_eq_of_listing_eq (write_titles _) (write_titles _) hlisting
  exact ⟨by decide, hlisting, hinit, hprogram⟩

end Image

end LineScript
