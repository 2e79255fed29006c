import LineScript.Proofs.Image.Contents
import LineScript.Proofs.Image.Parts

/-!
Reading what was written. An image that is written is read back with the same code, texts, storage,
functions and memory, and with its numbers bit for bit except that every NaN becomes the NaN of
reading. The functions come back in the byte order of their names, which as a map is the same table.
-/

set_option autoImplicit false
set_option relaxedAutoImplicit false

namespace LineScript

open Bytes

/-! ### Functions -/

/-- Reading functions puts them after those that the table has. -/
theorem exists_takeFunctions (ended : ReadError) (table : FunctionTable)
    (entries : List (Bytes × UInt32))
    (hnames : ∀ entry ∈ entries, Text.isName entry.1 = true)
    (haddresses : ∀ entry ∈ entries, entry.2.toNat ≤ maxCount)
    (hdistinct : ((table.entries ++ entries).map Prod.fst).Nodup) (rest : Bytes) :
    ∃ result, takeFunctions ended table entries.length
        ((entries.flatMap fun (name, address) ↦
          name ++ 0x20 :: decimal address.toNat ++ [0x0A]) ++ rest) = .ok (result, rest) ∧
      result.entries = table.entries ++ entries := by
  induction entries generalizing table with
  | nil => exact ⟨table, rfl, (List.append_nil _).symm⟩
  | cons entry entries ih =>
    obtain ⟨name, address⟩ := entry
    have hname : Text.isName name = true := hnames (name, address) List.mem_cons_self
    have haddress : address.toNat ≤ maxCount := haddresses (name, address) List.mem_cons_self
    have hline : 0x0A ∉ name ++ 0x20 :: decimal address.toNat := by
      rw [List.mem_append, List.mem_cons, not_or, not_or]
      exact ⟨Text.newline_notMem_of_isName hname, by decide,
        Text.newline_notMem_of_isName (isName_decimal _)⟩
    have hfields : Text.fields (name ++ 0x20 :: decimal address.toNat) =
        [name, decimal address.toNat] := by
      rw [Text.fields_name_append hname, Text.fields_name (isName_decimal _)]
    have hnew : name ∉ table.names := by
      rw [List.map_append, List.nodup_append] at hdistinct
      exact fun hmem ↦ hdistinct.2.2 _ hmem _ (by simp) rfl
    obtain ⟨larger, hlarger, hentries⟩ := FunctionTable.exists_declare? hnew address
    obtain ⟨result, htake, hresult⟩ := ih larger
      (fun other hother ↦ hnames other (List.mem_cons_of_mem _ hother))
      (fun other hother ↦ haddresses other (List.mem_cons_of_mem _ hother))
      (by rw [hentries, List.append_assoc]; exact hdistinct)
    refine ⟨result, ?_, by rw [hresult, hentries, List.append_assoc]; rfl⟩
    rw [List.flatMap_cons, List.length_cons, takeFunctions]
    rw [List.append_assoc, List.append_assoc, List.singleton_append, takeLine_append ended hline]
    simp only [bind, Except.bind, hfields, countOf_decimal haddress, UInt32.ofNat_toNat, hlarger]
    exact htake

/-- The same functions in the byte order of their names. -/
def FunctionTable.inNameOrder (table : FunctionTable) : FunctionTable :=
  ⟨table.sorted, table.distinct_sorted⟩

theorem takeFunctions_sorted (ended : ReadError) {table : FunctionTable}
    (hnames : ∀ entry ∈ table.entries, Text.isName entry.1 = true)
    (haddresses : ∀ entry ∈ table.entries, entry.2.toNat ≤ maxCount) (rest : Bytes) :
    takeFunctions ended .empty table.sorted.length
      ((table.sorted.flatMap fun (name, address) ↦
        name ++ 0x20 :: decimal address.toNat ++ [0x0A]) ++ rest) =
      .ok (table.inNameOrder, rest) := by
  obtain ⟨⟨entries, hdistinct⟩, htake, hentries⟩ :=
    exists_takeFunctions ended .empty table.sorted
    (fun entry hentry ↦ hnames entry ((table.mem_sorted entry).mp hentry))
    (fun entry hentry ↦ haddresses entry ((table.mem_sorted entry).mp hentry))
    table.distinct_sorted rest
  cases (hentries : entries = table.sorted)
  exact htake

namespace Image

/-- What comes back when a written image is read. -/
def restored (image : Image) : Image :=
  { image with
    functions := image.functions.inNameOrder
    numbers := image.numbers.map Number.canonical }

/-! ### Verification -/

theorem cellsFault?_congr {first second : Image}
    (h : ∀ tag, first.operands? tag = second.operands? tag) (codeSection : Section) (index : Nat)
    (cells : List Cell) :
    first.cellsFault? codeSection index cells = second.cellsFault? codeSection index cells := by
  have hcell : ∀ cell, first.cellFault? cell = second.cellFault? cell := by
    intro cell
    simp only [cellFault?, h]
  induction cells generalizing index with
  | nil => rfl
  | cons cell rest ih => rw [cellsFault?, cellsFault?, hcell, ih]

theorem functionFault?_eq_none_iff (image : Image) :
    image.functionFault? = none ↔
      ∀ entry ∈ image.functions.entries, entry.2.toNat < image.program.length := by
  simp [functionFault?, FunctionTable.mem_sorted]

theorem fault?_eq_none_iff (image : Image) :
    image.fault? = none ↔
      image.cellsFault? .init 0 image.init = none ∧
        image.cellsFault? .program 0 image.program = none ∧ image.functionFault? = none := by
  simp [fault?]

/-- Verification reads the sizes of pools and tables and the functions as a set. -/
theorem fault?_restored {image : Image} (h : image.fault? = none) :
    image.restored.fault? = none := by
  have hoperands : ∀ tag, image.restored.operands? tag = image.operands? tag := by
    intro tag
    cases tag with
    | constant type => cases type <;> simp [operands?, restored]
    | _ => rfl
  rw [fault?_eq_none_iff] at h ⊢
  obtain ⟨hinit, hprogram, hfunctions⟩ := h
  refine ⟨?_, ?_, ?_⟩
  · rw [cellsFault?_congr hoperands]
    exact hinit
  · rw [cellsFault?_congr hoperands]
    exact hprogram
  · rw [functionFault?_eq_none_iff] at hfunctions ⊢
    exact fun entry hentry ↦ hfunctions entry ((image.functions.mem_sorted entry).mp hentry)

/-! ### Images -/

/-- The parts of the format, each before all that follow it. -/
theorem bytes_eq_parts (image : Image) :
    image.bytes = imageMark ++ 0x20 :: decimal imageVersion ++ 0x0A ::
      (countLine [image.init.length, image.program.length, image.storage.length,
        image.functions.sorted.length] ++
      (countLine [image.numbers.length, image.texts.length] ++
      (countLine [image.ram.numericVariables.toNat, image.ram.textVariables.toNat,
        image.ram.dataReferences.toNat, image.ram.numericArrays.toNat,
        image.ram.textArrays.toNat] ++
      (image.storage.flatMap (· ++ [0x0A]) ++
      ((image.functions.sorted.flatMap fun (name, address) ↦
        name ++ 0x20 :: decimal address.toNat ++ [0x0A]) ++
      ((image.numbers.flatMap fun number ↦ number.text ++ [0x0A]) ++
      (image.texts.flatMap (· ++ [0x00]) ++
      ((image.init.flatMap fun cell ↦ littleEndian cell.raw) ++
      ((image.program.flatMap fun cell ↦ littleEndian cell.raw) ++ []))))))))) := by
  rw [bytes, header, FunctionTable.length_sorted, List.flatMap_append]
  generalize image.storage.flatMap _ = storage
  generalize image.functions.sorted.flatMap _ = functions
  generalize image.numbers.flatMap _ = numbers
  generalize image.texts.flatMap _ = texts
  simp only [List.append_assoc, List.cons_append, List.append_nil]

theorem takeImage_bytes {image : Image} (h : image.Writable) :
    takeImage { bytes := image.bytes } = .ok image.restored := by
  obtain ⟨hstorage, hfunctions, htexts, hcounts, hcells, hverified⟩ := h
  simp only [counts, List.forall_mem_cons] at hcounts
  obtain ⟨hinit, hprogram, hstorages, htable, hnumbers, htextCount, hnumericVariables,
    htextVariables, hdataReferences, hnumericArrays, htextArrays, -⟩ := hcounts
  rw [← FunctionTable.length_sorted] at htable
  have hram : ∀ ramClass, (image.ram.size ramClass).toNat ≤ maxCount := by
    rintro (⟨_ | _, _ | _⟩ | _)
    exacts [hnumericVariables, htextVariables, hnumericArrays, htextArrays, hdataReferences]
  have haddresses : ∀ entry ∈ image.functions.entries, entry.2.toNat ≤ maxCount := by
    intro entry hentry
    have hinside := (functionFault?_eq_none_iff image).mp
      ((fault?_eq_none_iff image).mp hverified).2.2 entry hentry
    exact Nat.le_trans (Nat.le_of_lt hinside) hprogram
  rw [List.forall_mem_append] at hcells
  have htakeStorage := takeMany_flatMap_self fun name hname ↦
    takeStorage_append .truncated (hstorage name hname)
  have htakeNumbers := takeMany_flatMap fun number (_ : number ∈ image.numbers) ↦
    takeNumber_append .truncated number
  have htakeTexts := takeMany_flatMap_self fun text htext ↦
    takeText_append .truncated (htexts text htext).1 (htexts text htext).2
  have htakeInit := takeMany_flatMap_self fun cell hcell ↦
    takeCell_littleEndian .truncated (hcells.1 cell hcell)
  have htakeProgram := takeMany_flatMap_self fun cell hcell ↦
    takeCell_littleEndian .truncated (hcells.2 cell hcell)
  have htakeFunctions := takeFunctions_sorted .truncated hfunctions haddresses
  rw [bytes_eq_parts, takeImage_eq]
  simp only [takeContents, takeTables, takeCode, bind, Except.bind, pure, Except.pure,
    takeVersion_append, htakeStorage, htakeFunctions, htakeNumbers, htakeTexts, htakeInit,
    htakeProgram,
    takeTableSizes_countLine .truncated hinit hprogram hstorages htable,
    takePoolSizes_countLine .truncated hnumbers htextCount,
    takeRamSizes_countLine .truncated hram]
  rfl

/-- What is written can be read, and only the payloads and signs of NaNs are lost. -/
theorem readImage_write {image : Image} {bytes : Bytes} (h : image.write = .ok bytes) :
    ∃ result, readImage { bytes } = .ok result ∧
      result.init = image.init ∧ result.program = image.program ∧
      result.texts = image.texts ∧ result.storage = image.storage ∧ result.ram = image.ram ∧
      (∀ name, result.functions.address? name = image.functions.address? name) ∧
      result.numbers = image.numbers.map fun number ↦
        if Number.infinity < number.magnitude then ⟨0x7FF8000000000001⟩ else number := by
  obtain ⟨hwritable, rfl⟩ := (write_eq_ok_iff image bytes).mp h
  have hread : readImage { bytes := image.bytes } = .ok image.restored := by
    simp only [readImage, takeImage_bytes hwritable, fault?_restored hwritable.verified, bind,
      Except.bind]
    rfl
  refine ⟨image.restored, hread, rfl, rfl, rfl, rfl, rfl, ?_, rfl⟩
  exact FunctionTable.address?_congr image.functions.mem_sorted

/-- An image whose names are no valid text and stand out of order, with a negative NaN. -/
def unusual : Image where
  init := [⟨130, 1⟩, ⟨131, 0⟩, ⟨141, 0⟩, ⟨180, 2⟩]
  program := [⟨0x25, 0xFFFFFF⟩, ⟨0x00, 0⟩]
  numbers := [⟨0xFFF8000000000000⟩, ⟨0x8000000000000000⟩]
  texts := [[0x0A, 0xC3, 0x28], []]
  storage := [[0xFF, 0x61]]
  functions := { entries := [([0x80], 1), ([0x74, 0xC2], 0)], distinct := by decide }
  ram := { numericArrays := 0x1000000, dataReferences := 3 }

theorem readImage_write_unusual :
    unusual.write = .ok unusual.bytes ∧
      ∃ result, readImage { bytes := unusual.bytes } = .ok result ∧
        result.init = unusual.init ∧ result.program = unusual.program ∧
        result.texts = unusual.texts ∧ result.storage = unusual.storage ∧
        result.ram = unusual.ram ∧
        (∀ name, result.functions.address? name = unusual.functions.address? name) ∧
        result.numbers = [⟨0x7FF8000000000001⟩, ⟨0x8000000000000000⟩] := by
  have hwritable : unusual.Writable :=
    { storage := by decide +kernel
      functions := by decide +kernel
      texts := by decide
      counts := by decide
      cells := by decide
      verified := by
        rw [fault?_eq_none_iff, functionFault?_eq_none_iff]
        decide }
  have hwrite : unusual.write = .ok unusual.bytes :=
    (write_eq_ok_iff unusual _).mpr ⟨hwritable, rfl⟩
  exact ⟨hwrite, readImage_write hwrite⟩

end Image

end LineScript
