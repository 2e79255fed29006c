import LineScript.Proofs.Bytes.Order
import LineScript.Proofs.Image.Contents
import LineScript.Proofs.Image.RoundTrip

/-!
The canonical form of an image. The reader allows much that the writer never produces: white space
of any kind between counts, zeros before them, numbers in any notation, functions in any order. All
the same, every image that can be read can be written, what is written for it reads back as the same
image, and writing that again changes no byte. Images are the same when their functions are the same
as a map; the order of the table then leaves no trace in the bytes.
-/

set_option autoImplicit false
set_option relaxedAutoImplicit false

namespace LineScript

open Bytes

/-! ### Tables as maps -/

namespace FunctionTable

variable {first second : FunctionTable}

theorem mem_entries_congr (h : ∀ name, first.address? name = second.address? name)
    (entry : Bytes × UInt32) : entry ∈ first.entries ↔ entry ∈ second.entries := by
  rw [← address?_eq_some_iff, ← address?_eq_some_iff, h]

theorem perm_entries (h : ∀ name, first.address? name = second.address? name) :
    first.entries.Perm second.entries :=
  (List.perm_ext_iff_of_nodup first.distinct.of_map second.distinct.of_map).mpr
    (mem_entries_congr h)

/-- Sorting forgets the order of the table, since no two of its functions have the same name. -/
theorem sorted_congr (h : ∀ name, first.address? name = second.address? name) :
    first.sorted = second.sorted := by
  refine mergeSort_of_perm Prod.fst (perm_entries h) ?_
  intro entry hentry other hother
  exact List.inj_on_of_nodup_map first.distinct hentry hother

end FunctionTable

namespace Image

/-- The same image. The order in which the tables list their functions does not count. -/
structure Same (first second : Image) : Prop where
  init : first.init = second.init
  program : first.program = second.program
  numbers : first.numbers = second.numbers
  texts : first.texts = second.texts
  storage : first.storage = second.storage
  functions : ∀ name, first.functions.address? name = second.functions.address? name
  ram : first.ram = second.ram

/-- The same image has the same bytes. -/
theorem Same.bytes_eq {first second : Image} (h : first.Same second) :
    first.bytes = second.bytes := by
  have hsorted := FunctionTable.sorted_congr h.functions
  have hlength : first.functions.entries.length = second.functions.entries.length :=
    (FunctionTable.perm_entries h.functions).length_eq
  simp only [bytes, header, h.init, h.program, h.numbers, h.texts, h.storage, h.ram, hsorted,
    hlength]

/-! ### Reading and writing again -/

theorem readImage_eq_ok {stream : ByteStream} {image : Image} (htake : takeImage stream = .ok image)
    (hverified : image.fault? = none) : readImage stream = .ok image := by
  simp only [readImage, htake, hverified, bind, Except.bind]
  rfl

theorem readImage_bytes {image : Image} (h : image.Writable) :
    readImage { bytes := image.bytes } = .ok image.restored :=
  readImage_eq_ok (takeImage_bytes h) (fault?_restored h.verified)

/-- What is read back is the image that was written, up to the NaNs in it. -/
theorem restored_same (image : Image) :
    image.restored.Same { image with numbers := image.numbers.map Number.canonical } where
  init := rfl
  program := rfl
  numbers := rfl
  texts := rfl
  storage := rfl
  functions := FunctionTable.address?_congr image.functions.mem_sorted
  ram := rfl

theorem restored_same_self {image : Image}
    (h : ∀ number ∈ image.numbers, number.canonical = number) : image.restored.Same image := by
  have hnumbers : image.numbers.map Number.canonical = image.numbers :=
    (List.map_congr_left h).trans (List.map_id' _)
  have hsame := image.restored_same
  rw [hnumbers] at hsame
  exact hsame

/-- An image that was read verifies, and nothing of it is foreign to the format. -/
theorem writable_of_readImage {bytes : Bytes} {image : Image}
    (h : readImage { bytes } = .ok image) :
    image.Writable ∧ ∀ number ∈ image.numbers, number.canonical = number := by
  obtain ⟨body, -, hcontents, hverified⟩ := exists_of_readImage h
  obtain ⟨hformat, hnumbers⟩ := gives_takeContents .truncated .truncated body image [] hcontents
  refine ⟨(writeError?_eq_none_iff image).mp ?_, hnumbers⟩
  rw [writeError?, hformat, hverified]
  rfl

/-- Every image that can be read has a canonical form, which is written for it, reads back as the
same image and is written for that again. -/
theorem exists_canonical_of_readImage {bytes : Bytes} {image : Image}
    (h : readImage { bytes } = .ok image) :
    image.fault? = none ∧ ∃ canonical again, image.write = .ok canonical ∧
      readImage { bytes := canonical } = .ok again ∧ again.Same image ∧
      again.write = .ok canonical := by
  obtain ⟨hwritable, hnumbers⟩ := writable_of_readImage h
  have hread := readImage_bytes hwritable
  have hsame := restored_same_self hnumbers
  have hagain := (writable_of_readImage hread).1
  exact ⟨hwritable.verified, image.bytes, image.restored,
    (write_eq_ok_iff _ _).mpr ⟨hwritable, rfl⟩, hread, hsame,
    (write_eq_ok_iff _ _).mpr ⟨hagain, hsame.bytes_eq.symm⟩⟩

/-- Bytes that the writer never produces: zeros before counts, a tab and a next-line character
between fields, functions out of order, a number in hexadecimal, names and a text that are no valid
text. -/
def laxBytes : Bytes :=
  utf8 "XenonCode! 00\n0 1\t1  02\n2 1\n0 0 003 0 0\n" ++ [0xFF, 0x0A] ++
    [0x80, 0x66, 0xC2, 0x85, 0x30, 0x0A] ++ utf8 " a 00 \n0x_1p-2\n-inf\n" ++
    [0xC3, 0x28, 0x00] ++ [0x02, 0x00, 0x00, 0xB4]

/-- The image that is read from them. -/
def laxImage : Image where
  program := [⟨180, 2⟩]
  numbers := [⟨0x3FD0000000000000⟩, ⟨0xFFF0000000000000⟩]
  texts := [[0xC3, 0x28]]
  storage := [[0xFF]]
  functions := { entries := [([0x80, 0x66], 0), ([0x61], 0)], distinct := by decide }
  ram := { dataReferences := 3 }

theorem readImage_laxBytes : readImage { bytes := laxBytes } = .ok laxImage := by
  refine readImage_eq_ok (by decide +kernel) ?_
  rw [fault?_eq_none_iff, functionFault?_eq_none_iff]
  decide

theorem exists_canonical_laxBytes :
    readImage { bytes := laxBytes } = .ok laxImage ∧ laxImage.fault? = none ∧
      ∃ canonical again, laxImage.write = .ok canonical ∧
        readImage { bytes := canonical } = .ok again ∧ again.Same laxImage ∧
        again.write = .ok canonical :=
  ⟨readImage_laxBytes, exists_canonical_of_readImage readImage_laxBytes⟩

end Image

end LineScript
