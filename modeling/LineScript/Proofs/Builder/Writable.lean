import LineScript.Proofs.Builder.Lookups
import LineScript.Proofs.Image.Canonical

/-!
Everything that is built can be written and read back. Whatever steps are taken, failed ones
included, the tables of a builder never outgrow the format, its names and texts are such that the
format can hold them, and its cells have values of 24 bits. Only the number of functions is not
bounded by the steps. So an image that is finished, and does not have too many functions, is
written, and reading it gives the same image, in which every NaN is the NaN of reading.
-/

set_option autoImplicit false
set_option relaxedAutoImplicit false

namespace LineScript.Builder

open Bytes

/-- What the steps keep: all that the format asks of an image apart from the number of functions, a
limit on texts that the format allows, and maps that find what is in the tables. -/
structure Sound (builder : Builder) : Prop extends Indexed builder where
  textLimit : builder.textLimit ≤ imageTextLimit
  numbers : builder.image.numbers.length ≤ maxCount
  texts : builder.image.texts.length ≤ maxCount
  storage : builder.image.storage.length ≤ maxCount
  ram : ∀ ramClass, (builder.image.ram.size ramClass).toNat ≤ maxCount
  sections : ∀ codeSection, (builder.image.code codeSection).length ≤ maxCount
  cells : ∀ codeSection, ∀ cell ∈ builder.image.code codeSection, cell.fits = true
  textsFit : ∀ text ∈ builder.image.texts, text.length ≤ imageTextLimit ∧ 0 ∉ text
  storageNames : ∀ name ∈ builder.image.storage, Text.isName name = true
  functionNames : ∀ entry ∈ builder.image.functions.entries, Text.isName entry.1 = true

/-! ### Counts -/

/-- A table with room for a reference of 24 bits has room in the format. A table that the format
could not hold might have it as well, since the reference is cut to 32 bits. -/
theorem succ_length_le {α : Type} {items : List α} (item : α) (h : items.length ≤ maxCount)
    (hroom : (UInt32.ofNat items.length).toNat ≤ maxValue) :
    (items ++ [item]).length ≤ maxCount := by
  rw [UInt32.toNat_ofNat'] at hroom
  rw [List.length_append, List.length_singleton]
  unfold maxCount maxValue at *
  omega

theorem size_grow (ram : RamSizes) (ramClass other : RamClass) :
    (ram.grow ramClass).size other =
      if other = ramClass then ram.size other + 1 else ram.size other := by
  rcases ramClass with ⟨_ | _, _ | _⟩ | _ <;> rcases other with ⟨_ | _, _ | _⟩ | _ <;> rfl

theorem size_grow_le {ram : RamSizes} {ramClass : RamClass}
    (h : ∀ other, (ram.size other).toNat ≤ maxCount)
    (hroom : (ram.size ramClass).toNat ≤ maxValue) (other : RamClass) :
    ((ram.grow ramClass).size other).toNat ≤ maxCount := by
  rw [size_grow]
  split_ifs with hsame
  · rw [hsame, UInt32.toNat_add, UInt32.toNat_one]
    unfold maxCount maxValue at *
    omega
  · exact h other

theorem code_setCode (builder : Builder) (codeSection other : Section) (cells : List Cell) :
    (builder.setCode codeSection cells).image.code other =
      if other = codeSection then cells else builder.image.code other := by
  cases codeSection <;> cases other <;> rfl

/-! ### Steps -/

/-- Other cells in a section touch nothing else. -/
theorem Sound.setCode {builder : Builder} (h : builder.Sound) (codeSection : Section)
    {cells : List Cell} (hlength : cells.length ≤ maxCount)
    (hcells : ∀ cell ∈ cells, cell.fits = true) : (builder.setCode codeSection cells).Sound := by
  have hsections : ∀ other,
      ((builder.setCode codeSection cells).image.code other).length ≤ maxCount := by
    intro other
    rw [code_setCode]
    split_ifs
    · exact hlength
    · exact h.sections other
  have hfits : ∀ other, ∀ cell ∈ (builder.setCode codeSection cells).image.code other,
      cell.fits = true := by
    intro other
    rw [code_setCode]
    split_ifs
    · exact hcells
    · exact h.cells other
  cases codeSection with
  | init => exact { h with sections := hsections, cells := hfits }
  | program => exact { h with sections := hsections, cells := hfits }

theorem Sound.edit {builder next : Builder} (hedit : Edit builder next) (h : builder.Sound) :
    next.Sound := by
  have hindexed := h.toIndexed.edit hedit h.numbers h.texts h.storage
  cases hedit with
  | number hnew hroom =>
    exact { h with toIndexed := hindexed, numbers := succ_length_le _ h.numbers hroom }
  | text hnew hlength hzero hroom =>
    have hfits : ∀ text ∈ builder.image.texts ++ [_], text.length ≤ imageTextLimit ∧ 0 ∉ text :=
      List.forall_mem_append.mpr ⟨h.textsFit,
        List.forall_mem_singleton.mpr ⟨Nat.le_trans hlength h.textLimit, hzero⟩⟩
    exact { h with
      toIndexed := hindexed, texts := succ_length_le _ h.texts hroom, textsFit := hfits }
  | storage hname hnew hroom =>
    have hnames : ∀ name ∈ builder.image.storage ++ [_], Text.isName name = true :=
      List.forall_mem_append.mpr ⟨h.storageNames, List.forall_mem_singleton.mpr hname⟩
    exact { h with
      toIndexed := hindexed, storage := succ_length_le _ h.storage hroom, storageNames := hnames }
  | slot hroom => exact { h with ram := size_grow_le h.ram hroom }
  | append hfits hroom =>
    refine h.setCode _ ?_
      (List.forall_mem_append.mpr ⟨h.cells _, List.forall_mem_singleton.mpr hfits⟩)
    rw [List.length_append, List.length_singleton]
    exact Nat.succ_le_succ hroom
  | patch hfits =>
    refine h.setCode _ (by rw [List.length_set]; exact h.sections _) ?_
    intro cell hcell
    rcases List.mem_or_eq_of_mem_set hcell with hold | rfl
    · exact h.cells _ cell hold
    · exact hfits
  | function hname hnew =>
    refine { h with functionNames := ?_ }
    dsimp only
    rw [FunctionTable.entries_declare? hnew]
    exact List.forall_mem_append.mpr ⟨h.functionNames, List.forall_mem_singleton.mpr hname⟩
  | mark file line => exact { h with }

/-! ### Runs -/

theorem Sound.empty : Sound {} where
  toIndexed := .empty
  textLimit := Nat.le_refl _
  numbers := Nat.zero_le _
  texts := Nat.zero_le _
  storage := Nat.zero_le _
  ram := by rintro (⟨_ | _, _ | _⟩ | _) <;> exact Nat.zero_le _
  sections := by rintro (_ | _) <;> exact Nat.zero_le _
  cells := by rintro (_ | _) <;> exact List.forall_mem_nil _
  textsFit := List.forall_mem_nil _
  storageNames := List.forall_mem_nil _
  functionNames := List.forall_mem_nil _

/-- A limit counts only if the format allows it. -/
theorem Sound.withTextLimit {builder : Builder} (h : builder.Sound) (limit : Int) :
    (builder.withTextLimit limit).Sound := by
  unfold Builder.withTextLimit
  split_ifs with hrange
  · exact { h with textLimit := Int.toNat_le.mpr hrange.2 }
  · exact h

theorem Sound.withTextLimits {builder : Builder} (h : builder.Sound) (limits : List Int) :
    (limits.foldl Builder.withTextLimit builder).Sound := by
  induction limits generalizing builder with
  | nil => exact h
  | cons limit limits ih => exact ih (h.withTextLimit limit)

theorem Sound.performAll {builder : Builder} (h : builder.Sound) (steps : List BuildStep) :
    (builder.performAll steps).Sound :=
  performAll_induction Sound.edit builder h steps

/-! ### Images -/

/-- What a sound builder holds fits the format, if there are not too many functions. -/
theorem Sound.writable {builder : Builder} (h : builder.Sound)
    (hfunctions : builder.image.functions.entries.length ≤ maxCount)
    (hverified : builder.image.fault? = none) : builder.image.Writable where
  storage := h.storageNames
  functions := h.functionNames
  texts := h.textsFit
  counts := by
    simp only [Image.counts, List.forall_mem_cons]
    exact ⟨h.sections .init, h.sections .program, h.storage, hfunctions, h.numbers, h.texts,
      h.ram (.values .single .numeric), h.ram (.values .single .text), h.ram .data,
      h.ram (.values .array .numeric), h.ram (.values .array .text), List.forall_mem_nil _⟩
  cells := List.forall_mem_append.mpr ⟨h.cells .init, h.cells .program⟩
  verified := hverified

theorem image_of_finish {builder : Builder} {image : Image} (h : builder.finish = .ok image) :
    builder.image = image ∧ image.fault? = none := by
  unfold finish at h
  split at h
  · cases h
  · rename_i hverified
    cases h
    exact ⟨rfl, hverified⟩

/-- Whatever is built can be written, unless it has more functions than the format can count, and
reading it back gives what was built, in which every NaN is the NaN of reading. -/
theorem exists_write_of_finish (limits : List Int) (steps : List BuildStep) {image : Image}
    (h : ((limits.foldl withTextLimit {}).performAll steps).finish = .ok image)
    (hfunctions : image.functions.entries.length ≤ 2 ^ 24) :
    ∃ bytes again, image.write = .ok bytes ∧ readImage { bytes } = .ok again ∧
      again.Same { image with numbers := image.numbers.map Number.canonical } := by
  have hsound := (Sound.empty.withTextLimits limits).performAll steps
  obtain ⟨rfl, hverified⟩ := image_of_finish h
  have hwritable := hsound.writable hfunctions hverified
  exact ⟨_, _, (Image.write_eq_ok_iff _ _).mpr ⟨hwritable, rfl⟩, Image.readImage_bytes hwritable,
    Image.restored_same _⟩

/-- A run with steps that fail: a limit out of range, a text over the limit and one with a zero, a
name with a blank, slots that are no memory, a second function of a name, a cell outside a section,
a value of 25 bits and a negative line. -/
def mixedSteps : List BuildStep :=
  [.number ⟨0xFFF8000000000000⟩, .text [0xC3, 0x28], .text (utf8 "overlong"), .text [0x00],
   .storage [0xFF] .array .text, .storage [0x61, 0x20] .single .numeric, .slot 180, .slot 7,
   .function (utf8 "b"), .emit .init 180 0, .position (utf8 "main") 3, .function (utf8 "a"),
   .function (utf8 "b"), .patch .program 2 0, .emit .program 0 0x1000000, .emit .program 180 0,
   .position (utf8 "main") (-1)]

/-- The image that the run builds. -/
def mixedImage : Image where
  init := [⟨180, 0⟩]
  program := [⟨1, 1⟩, ⟨2, 3⟩, ⟨180, 0⟩]
  numbers := [⟨0xFFF8000000000000⟩]
  texts := [[0xC3, 0x28], utf8 "main"]
  storage := [[0xFF]]
  functions := { entries := [(utf8 "b", 0), (utf8 "a", 2)], distinct := by decide }
  ram := { dataReferences := 1 }

theorem finish_mixedSteps :
    (([300, 5].foldl withTextLimit {}).performAll mixedSteps).finish = .ok mixedImage := by
  have himage : (([300, 5].foldl withTextLimit {}).performAll mixedSteps).image = mixedImage := by
    decide +kernel
  have hverified : mixedImage.fault? = none := by
    rw [Image.fault?_eq_none_iff, Image.functionFault?_eq_none_iff]
    decide
  rw [finish, himage, hverified]

theorem exists_write_mixedSteps :
    (([300, 5].foldl withTextLimit {}).performAll mixedSteps).finish = .ok mixedImage ∧
      mixedImage.functions.entries.length ≤ 2 ^ 24 ∧
      ∃ bytes again, mixedImage.write = .ok bytes ∧ readImage { bytes } = .ok again ∧
        again.Same { mixedImage with numbers := mixedImage.numbers.map Number.canonical } :=
  ⟨finish_mixedSteps, by decide, exists_write_of_finish _ _ finish_mixedSteps (by decide)⟩

end LineScript.Builder
