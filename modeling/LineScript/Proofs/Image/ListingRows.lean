import LineScript.Proofs.Image.TableOrder
import LineScript.Proofs.Image.Verification
import LineScript.Proofs.Source.Linewise
import LineScript.Proofs.Text.OneLine

/-!
Listings row by row. After a heading of fixed wording with numbers in it, a listing is a list of
rows: the names of the storage, and for each section its title and then the rows of its cells, each
below the labels of its address. In the listing of an image that can be written each row is one
line, whatever names and texts it shows.
-/

set_option autoImplicit false
set_option relaxedAutoImplicit false

namespace LineScript

open Bytes

/-! ### The names of meanings -/

namespace Tag

/-- All meanings. -/
def all : List Tag :=
  [.ret, .file, .line, .goto, .gotoIf, .gotoIfNot, .numberOperation, .textOperation, .compare,
    .inputFunction, .outputFunction, .systemFunction, .deviceFunction, .mathFunction, .userFunction,
    .constant .numeric, .constant .text, .storage .single .numeric, .storage .single .text,
    .storage .array .numeric, .storage .array .text, .ram (.values .single .numeric),
    .ram (.values .single .text), .ram (.values .array .numeric), .ram (.values .array .text),
    .ram .data]

theorem mem_all (tag : Tag) : tag ∈ all := by
  rcases tag with _ | _ | _ | _ | _ | _ | _ | _ | _ | _ | _ | _ | _ | _ | _ | (_ | _) |
    ⟨_ | _, _ | _⟩ | (⟨_ | _, _ | _⟩ | _) <;> simp [all]

/-- No two meanings have the same name. Names are one line and have no brace, which is where the
value of a cell starts. -/
theorem names_distinct :
    (all.map name).Nodup ∧ ∀ spelling ∈ all.map name, 0x0A ∉ spelling ∧ 0x7B ∉ spelling := by
  decide +kernel

theorem name_injective : Function.Injective name := by
  intro tag other hname
  exact List.inj_on_of_nodup_map names_distinct.1 tag.mem_all other.mem_all hname

theorem notMem_name (tag : Tag) : 0x0A ∉ tag.name ∧ 0x7B ∉ tag.name :=
  names_distinct.2 tag.name (List.mem_map.mpr ⟨tag, tag.mem_all, rfl⟩)

end Tag

/-- A cell is shown by the name of its meaning and, between braces, its value. -/
theorem Cell.text_eq {cell : Cell} {tag : Tag} (h : cell.tag? = some tag) :
    cell.text = tag.name ++ 0x7B :: (decimal cell.value.toNat ++ [0x7D]) := by
  have hname : tagName cell.code = tag.name := by
    rw [tagName, show Tag.ofCode? cell.code = some tag from h]
  rw [text, hname, List.append_assoc, List.append_assoc]
  rfl

theorem newline_notMem_decimal (n : Nat) : 0x0A ∉ decimal n :=
  fun hmem ↦ absurd (isDigit_of_mem_decimal _ hmem) (by decide)

/-! ### Rows -/

namespace Image

/-- What stands after a cell. -/
def remarkText (image : Image) (cell : Cell) : Bytes :=
  match image.remark? cell with
  | some text => utf8 "  ; " ++ text
  | none => []

/-- The row of a cell, without its newline. -/
def cellRow (image : Image) (index : Nat) (cell : Cell) : Bytes :=
  utf8 "  " ++ padded 0x30 4 (decimal index) ++ utf8 "  " ++ cell.text ++ image.remarkText cell

/-- The rows of a section, each cell below the labels of its address. -/
def sectionRows (image : Image) (labels : Nat → List Bytes) (start : Nat) (cells : List Cell) :
    List Bytes :=
  (cells.zipIdx start).flatMap fun (cell, index) ↦ labels index ++ [image.cellRow index cell]

/-- The rows of the functions that start at an address. -/
def labelRows (image : Image) (index : Nat) : List Bytes :=
  (image.functions.namesAt (UInt32.ofNat index)).map (· ++ [0x3A])

/-- The rows of the storage from `start` on. -/
def storageRows (start : Nat) (names : List Bytes) : List Bytes :=
  (names.zipIdx start).map fun (name, index) ↦
    utf8 "; storage " ++ decimal index ++ utf8 ": " ++ name

/-- The rows below the heading. -/
def rows (image : Image) : List Bytes :=
  storageRows 0 image.storage ++
    utf8 "init:" :: (image.sectionRows (fun _ ↦ []) 0 image.init ++
      utf8 "program:" :: image.sectionRows image.labelRows 0 image.program)

theorem row_eq_cellRow (image : Image) (index : Nat) (cell : Cell) :
    image.row index cell = image.cellRow index cell ++ [0x0A] :=
  rfl

theorem sectionRows_cons (image : Image) (labels : Nat → List Bytes) (start : Nat) (cell : Cell)
    (cells : List Cell) :
    image.sectionRows labels start (cell :: cells) =
      labels start ++ image.cellRow start cell :: image.sectionRows labels (start + 1) cells := by
  rw [sectionRows, List.zipIdx_cons, List.flatMap_cons, List.append_assoc]
  rfl

theorem flatMap_storageRows (names : List Bytes) :
    (storageRows 0 names).flatMap (· ++ [0x0A]) =
      names.zipIdx.flatMap fun (name, index) ↦
        utf8 "; storage " ++ decimal index ++ utf8 ": " ++ name ++ [0x0A] := by
  rw [storageRows, List.flatMap_map]

theorem flatMap_sectionRows (image : Image) (labels : Nat → List Bytes) (cells : List Cell) :
    (image.sectionRows labels 0 cells).flatMap (· ++ [0x0A]) =
      cells.zipIdx.flatMap fun (cell, index) ↦
        (labels index).flatMap (· ++ [0x0A]) ++ image.row index cell := by
  rw [sectionRows, List.flatMap_assoc]
  refine List.flatMap_congr fun entry _ ↦ ?_
  rw [List.flatMap_append, List.flatMap_singleton, ← row_eq_cellRow]

theorem listing_eq_rows (image : Image) :
    image.listing = image.heading ++ image.rows.flatMap (· ++ [0x0A]) := by
  have hlabels : ∀ index, (image.labelRows index).flatMap (· ++ [0x0A]) =
      (image.functions.labels.above (UInt32.ofNat index)).flatMap (· ++ utf8 ":\n") := by
    intro index
    rw [labelRows, FunctionTable.above_labels, List.flatMap_map]
    refine List.flatMap_congr fun name _ ↦ ?_
    rw [List.append_assoc]
    rfl
  have hinit : utf8 "init:\n" = utf8 "init:" ++ [0x0A] := rfl
  have hprogram : utf8 "program:\n" = utf8 "program:" ++ [0x0A] := rfl
  have hsummary : image.summary =
      image.heading ++ (storageRows 0 image.storage).flatMap (· ++ [0x0A]) := by
    rw [flatMap_storageRows, summary]
  rw [listing, hsummary, rows, List.flatMap_append, List.flatMap_cons, List.flatMap_append,
    List.flatMap_cons, flatMap_sectionRows, flatMap_sectionRows, hinit, hprogram]
  simp only [hlabels, List.flatMap_nil, List.nil_append, List.append_assoc]

/-! ### One line for each row -/

section OneLine

variable {image : Image} {cell : Cell} {tag : Tag}

theorem newline_notMem_cellText (h : cell.tag? = some tag) : 0x0A ∉ cell.text := by
  rw [Cell.text_eq h, List.mem_append, List.mem_cons, List.mem_append, not_or, not_or, not_or]
  exact ⟨tag.notMem_name.1, by decide, newline_notMem_decimal _, by decide⟩

theorem newline_notMem_constant {word : Word} (h : word ∈ (image.constant cell).toOption) :
    0x0A ∉ word.render := by
  unfold constant at h
  split at h
  · split at h
    · rename_i number _
      cases h
      exact number.newline_notMem_text
    · cases h
  · split at h
    · cases h
      exact Text.newline_notMem_quote _
    · cases h
  · cases h

/-- What a cell refers to is shown on one line, since texts are quoted and names have no white
space. -/
theorem newline_notMem_remark? (himage : image.Writable) {text : Bytes}
    (h : image.remark? cell = some text) : 0x0A ∉ text := by
  have htarget : 0x0A ∉ utf8 "-> " ++ decimal cell.value.toNat := by
    rw [List.mem_append, not_or]
    exact ⟨by decide, newline_notMem_decimal _⟩
  unfold remark? at h
  split at h
  · obtain ⟨word, hword, rfl⟩ := Option.map_eq_some_iff.mp h
    exact newline_notMem_constant hword
  · exact Text.newline_notMem_of_isName (himage.storage _ (List.mem_of_getElem? h))
  · have hmem := (image.functions.mem_namesAt _ _).mp (List.mem_of_mem_head? h)
    exact Text.newline_notMem_of_isName (himage.functions _ hmem)
  · exact Option.some.inj h ▸ htarget
  · exact Option.some.inj h ▸ htarget
  · exact Option.some.inj h ▸ htarget
  · cases h

theorem newline_notMem_cellRow (himage : image.Writable) (index : Nat)
    (hcell : cell.tag? = some tag) : 0x0A ∉ image.cellRow index cell := by
  have hindex : 0x0A ∉ padded 0x30 4 (decimal index) := by
    rw [padded, List.mem_append, not_or]
    exact ⟨fun hmem ↦ absurd (List.eq_of_mem_replicate hmem) (by decide), newline_notMem_decimal _⟩
  have hremark : 0x0A ∉ image.remarkText cell := by
    unfold remarkText
    split
    · rename_i text htext
      rw [List.mem_append, not_or]
      exact ⟨by decide, newline_notMem_remark? himage htext⟩
    · exact List.not_mem_nil
  simp only [cellRow, List.mem_append, not_or]
  exact ⟨⟨⟨⟨by decide, hindex⟩, by decide⟩, newline_notMem_cellText hcell⟩, hremark⟩

/-- The cells of an image that can be written have meanings. -/
theorem Writable.exists_tag (himage : image.Writable) (hcell : cell ∈ image.init ++ image.program) :
    ∃ tag, cell.tag? = some tag := by
  have hverified := (fault?_eq_none_iff_verified image).mp himage.verified
  have haccepted : image.Accepts cell :=
    (List.mem_append.mp hcell).elim (hverified.cells .init cell) (hverified.cells .program cell)
  obtain ⟨tag, htag⟩ := haccepted.defined
  exact ⟨tag, (cell.tag?_eq_some_iff tag).mpr htag⟩

theorem newline_notMem_sectionRows (himage : image.Writable) {labels : Nat → List Bytes}
    (hlabels : ∀ index, ∀ row ∈ labels index, 0x0A ∉ row) {cells : List Cell}
    (hcells : cells ⊆ image.init ++ image.program) :
    ∀ row ∈ image.sectionRows labels 0 cells, 0x0A ∉ row := by
  intro row hrow
  obtain ⟨⟨cell, index⟩, hentry, hrow⟩ := List.mem_flatMap.mp hrow
  rw [List.mem_append, List.mem_singleton] at hrow
  rcases hrow with hlabel | rfl
  · exact hlabels index row hlabel
  · obtain ⟨tag, htag⟩ := himage.exists_tag (hcells (List.fst_mem_of_mem_zipIdx hentry))
    exact newline_notMem_cellRow himage index htag

theorem exists_name_of_mem_labelRows (himage : image.Writable) {index : Nat} {row : Bytes}
    (h : row ∈ image.labelRows index) : ∃ name, Text.isName name = true ∧ row = name ++ [0x3A] := by
  obtain ⟨name, hname, rfl⟩ := List.mem_map.mp h
  rw [FunctionTable.mem_namesAt] at hname
  exact ⟨name, himage.functions _ hname, rfl⟩

theorem newline_notMem_storageRows (himage : image.Writable) :
    ∀ row ∈ storageRows 0 image.storage, 0x0A ∉ row := by
  intro row hrow
  obtain ⟨⟨name, index⟩, hentry, rfl⟩ := List.mem_map.mp hrow
  have hname := himage.storage name (List.fst_mem_of_mem_zipIdx hentry)
  simp only [List.mem_append, not_or]
  exact ⟨⟨⟨by decide, newline_notMem_decimal _⟩, by decide⟩, Text.newline_notMem_of_isName hname⟩

/-- Every row of an image that can be written is one line. -/
theorem newline_notMem_rows (himage : image.Writable) : ∀ row ∈ image.rows, 0x0A ∉ row := by
  have hlabels : ∀ index, ∀ row ∈ image.labelRows index, 0x0A ∉ row := by
    intro index row hrow
    obtain ⟨name, hname, rfl⟩ := exists_name_of_mem_labelRows himage hrow
    rw [List.mem_append, not_or]
    exact ⟨Text.newline_notMem_of_isName hname, by decide⟩
  rw [rows, List.forall_mem_append, List.forall_mem_cons, List.forall_mem_append,
    List.forall_mem_cons]
  exact ⟨newline_notMem_storageRows himage, by decide,
    newline_notMem_sectionRows himage (by simp) (List.subset_append_left _ _), by decide,
    newline_notMem_sectionRows himage hlabels (List.subset_append_right _ _)⟩

end OneLine

end Image

end LineScript
