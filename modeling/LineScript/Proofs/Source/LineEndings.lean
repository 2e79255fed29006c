import LineScript.Proofs.Source.BlankLines

/-!
Line endings. A source is read in the same way whether its lines end in a newline alone or in a
carriage return and a newline, and whether or not a newline ends its last line. The carriage returns
are dropped with the newlines they precede. A newline at the end only ends the last line, or adds a
blank line if that is ended already, and a blank line at the end is neither kept nor followed by a
line that could be too deep.
-/

set_option autoImplicit false
set_option relaxedAutoImplicit false

namespace LineScript

open Bytes

/-- The bytes with a carriage return put before every newline. -/
def withReturns (bytes : Bytes) : Bytes :=
  bytes.flatMap fun byte ↦ if byte = 0x0A then [0x0D, 0x0A] else [byte]

theorem withReturns_append (first second : Bytes) :
    withReturns (first ++ second) = withReturns first ++ withReturns second :=
  List.flatMap_append

theorem withReturns_of_notMem {piece : Bytes} (h : 0x0A ∉ piece) : withReturns piece = piece := by
  induction piece with
  | nil => rfl
  | cons byte rest ih =>
    rw [List.mem_cons, not_or] at h
    rw [withReturns, List.flatMap_cons, if_neg (Ne.symm h.1), List.singleton_append]
    exact congrArg (byte :: ·) (ih h.2)

/-- The pieces that newlines end, each with the carriage return that stands before its newline. -/
theorem withReturns_flatMap {ended : List Bytes} (h : ∀ piece ∈ ended, 0x0A ∉ piece) :
    withReturns (ended.flatMap (· ++ [0x0A])) =
      (ended.map (· ++ [0x0D])).flatMap (· ++ [0x0A]) := by
  induction ended with
  | nil => rfl
  | cons piece ended ih =>
    rw [List.forall_mem_cons] at h
    have hnewline : withReturns [0x0A] = [0x0D] ++ [0x0A] := rfl
    rw [List.map_cons, List.flatMap_cons, List.flatMap_cons, withReturns_append,
      withReturns_append, withReturns_of_notMem h.1, ih h.2, hnewline,
      List.append_assoc piece [0x0D]]

theorem IsCut.withReturns {bytes tail : Bytes} {ended : List Bytes} (h : IsCut bytes ended tail) :
    IsCut (withReturns bytes) (ended.map (· ++ [0x0D])) tail where
  bytes_eq := by
    rw [h.bytes_eq, withReturns_append, withReturns_flatMap h.ended, withReturns_of_notMem h.tail]
  ended := by
    intro line hline
    obtain ⟨piece, hpiece, rfl⟩ := List.mem_map.mp hline
    rw [List.mem_append, not_or]
    exact ⟨h.ended piece hpiece, by decide⟩
  tail := h.tail

theorem withoutReturn_append (piece : Bytes) : withoutReturn (piece ++ [0x0D]) = piece :=
  (isTrimmed_iff _ _).mp (Or.inl rfl)

theorem withoutReturn_of_notMem {piece : Bytes} (h : 0x0D ∉ piece) : withoutReturn piece = piece :=
  (isTrimmed_iff _ _).mp (Or.inr ⟨rfl, fun hlast ↦ h (List.mem_of_getLast? hlast)⟩)

/-- Carriage returns before all newlines leave the lines of a stream as they are. -/
theorem lines_withReturns {bytes : Bytes} (h : 0x0D ∉ bytes) (failure : Option StreamFailure) :
    (ByteStream.mk (withReturns bytes) failure).lines = (ByteStream.mk bytes failure).lines := by
  have hcut := isCut_cutLines bytes
  have hended : ∀ piece ∈ (cutLines bytes).1, withoutReturn piece = piece := by
    intro piece hpiece
    refine withoutReturn_of_notMem fun hmem ↦ h ?_
    rw [hcut.bytes_eq]
    exact List.mem_append_left _
      (List.mem_flatMap.mpr ⟨piece, hpiece, List.mem_append_left _ hmem⟩)
  simp only [ByteStream.lines, hcut.withReturns.cutLines_eq, List.map_append, List.map_map]
  congr 1
  refine List.map_congr_left fun piece hpiece ↦ ?_
  rw [Function.comp_apply, withoutReturn_append, hended piece hpiece]

theorem IsCut.append_newline {bytes tail : Bytes} {ended : List Bytes}
    (h : IsCut bytes ended tail) : IsCut (bytes ++ [0x0A]) (ended ++ [tail]) [] where
  bytes_eq := by
    rw [h.bytes_eq, List.flatMap_append, List.append_nil, List.append_assoc, List.flatMap_singleton]
  ended := List.forall_mem_append.mpr ⟨h.ended, List.forall_mem_singleton.mpr h.tail⟩
  tail := List.not_mem_nil

/-- A newline at the end ends the last line, or adds a blank line where that is ended already. -/
theorem lines_append_newline (bytes : Bytes) :
    ByteStream.lines { bytes := bytes ++ [0x0A] } = ByteStream.lines { bytes } ∨
      ByteStream.lines { bytes := bytes ++ [0x0A] } = ByteStream.lines { bytes } ++ [[]] := by
  have hcut := (isCut_cutLines bytes).append_newline.cutLines_eq
  cases htail : (cutLines bytes).2 with
  | nil =>
    right
    simp [ByteStream.lines, hcut, htail, withoutReturn]
  | cons byte rest =>
    left
    simp [ByteStream.lines, hcut, htail]

/-- A blank line after the last line changes nothing. -/
theorem readLines_append_blank (rules : ReadingRules) (number scope : Nat) (texts : List Bytes) :
    readLines rules none number scope (texts ++ [[]]) =
      readLines rules none number scope texts := by
  induction texts generalizing number scope with
  | nil =>
    rw [List.nil_append, readLines_blank_cons]
    rfl
  | cons text rest ih => rw [List.cons_append, readLines, readLines, ih]

/-- Reading does not depend on how lines end: a source without carriage returns is read in the same
way with one before every newline, and any source is read in the same way with one more newline at
its end. -/
theorem readSource_lineEndings (rules : ReadingRules) (bytes : Bytes) :
    (0x0D ∉ bytes → ∀ failure,
      readSource rules ⟨withReturns bytes, failure⟩ = readSource rules ⟨bytes, failure⟩) ∧
    readSource rules { bytes := bytes ++ [0x0A] } = readSource rules { bytes } := by
  unfold readSource
  constructor
  · intro hreturn failure
    rw [lines_withReturns hreturn]
  · rcases lines_append_newline bytes with hlines | hlines
    · rw [hlines]
    · rw [hlines, readLines_append_blank]

/-- A source with an empty line, a comment and a last line without a newline. -/
def unendedSource : Bytes :=
  utf8 "init\n\n\tif 1 ; once\n\t\t// nothing\n\t\tbreak"

theorem readSource_lineEndings_unendedSource :
    0x0D ∉ unendedSource ∧
      readSource {} { bytes := utf8 "init\r\n\r\n\tif 1 ; once\r\n\t\t// nothing\r\n\t\tbreak" } =
        readSource {} { bytes := unendedSource } ∧
      readSource {} { bytes := utf8 "init\n\n\tif 1 ; once\n\t\t// nothing\n\t\tbreak\n" } =
        readSource {} { bytes := unendedSource } := by
  have hreturn : 0x0D ∉ unendedSource := by decide +kernel
  have hreturns : withReturns unendedSource =
      utf8 "init\r\n\r\n\tif 1 ; once\r\n\t\t// nothing\r\n\t\tbreak" := by decide +kernel
  have hnewline : unendedSource ++ [0x0A] =
      utf8 "init\n\n\tif 1 ; once\n\t\t// nothing\n\t\tbreak\n" := by decide +kernel
  obtain ⟨hlines, hlast⟩ := readSource_lineEndings {} unendedSource
  rw [← hreturns, ← hnewline]
  exact ⟨hreturn, hlines hreturn none, hlast⟩

end LineScript
