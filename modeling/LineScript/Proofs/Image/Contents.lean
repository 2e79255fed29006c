import LineScript.Proofs.Image.Readers
import LineScript.Proofs.Image.Writable
import LineScript.Proofs.Number.RoundTrip
import LineScript.Proofs.Text.Pieces

/-!
The contents of an image, which are all that follows the line of its version. Every reader of a part
uses up its bytes from the front. What it takes fits the format: counts are bounded, names and the
fields of a line are names that a table may hold, texts are short and without zero bytes, cells have
values of 24 bits, and the only NaN is that of reading.
-/

set_option autoImplicit false
set_option relaxedAutoImplicit false

namespace LineScript

open Bytes

variable (ended : ReadError)

/-! ### Lines -/

theorem sequential_takeLine : Sequential ended (takeLine ended) := by
  intro bytes line rest hread
  induction bytes generalizing line with
  | nil => cases hread
  | cons byte bytes ih =>
    rw [takeLine] at hread
    split_ifs at hread with hnewline
    · cases hread
      refine ⟨[byte], rfl, .single rfl fun more ↦ ?_⟩
      rw [takeLine, if_pos hnewline]
    · split at hread
      · rename_i tail after htail
        cases hread
        obtain ⟨used, hused, htake⟩ := ih _ htail
        refine ⟨byte :: used, congrArg (byte :: ·) hused, .cons rfl ?_ ?_ htake⟩
        · intro bytes rest hok
          rw [takeLine, if_neg hnewline, hok]
        · intro bytes error herror
          rw [takeLine, if_neg hnewline, herror]
      · cases hread

/-! ### Sizes -/

theorem le_of_countOf {text : Bytes} {count : Nat} (h : countOf text = .ok count) :
    count ≤ maxCount := by
  unfold countOf at h
  split at h
  · cases h
  · split_ifs at h with hlarge
    cases h
    exact Nat.not_lt.mp hlarge

theorem sequential_takeTableSizes : Sequential ended (takeTableSizes ended) := by
  refine (sequential_takeLine ended).bind fun line ↦ ?_
  dsimp only
  split
  · exact .check fun _ ↦ .check fun _ ↦ .check fun _ ↦ .check fun _ ↦ .pure _
  · exact .error _

theorem gives_takeTableSizes :
    Gives (takeTableSizes ended) fun sizes ↦ sizes.init ≤ maxCount ∧ sizes.program ≤ maxCount ∧
      sizes.storage ≤ maxCount ∧ sizes.functions ≤ maxCount := by
  refine (Gives.trivial _).bind fun line _ ↦ ?_
  dsimp only
  split
  · refine .check fun _ hinit ↦ .check fun _ hprogram ↦ .check fun _ hstorage ↦
      .check fun _ hfunctions ↦ .pure ?_
    exact ⟨le_of_countOf hinit, le_of_countOf hprogram, le_of_countOf hstorage,
      le_of_countOf hfunctions⟩
  · exact .error _

theorem sequential_takePoolSizes : Sequential ended (takePoolSizes ended) := by
  refine (sequential_takeLine ended).bind fun line ↦ ?_
  dsimp only
  split
  · exact .check fun _ ↦ .check fun _ ↦ .pure _
  · exact .error _

theorem gives_takePoolSizes :
    Gives (takePoolSizes ended) fun sizes ↦
      sizes.numbers ≤ maxCount ∧ sizes.texts ≤ maxCount := by
  refine (Gives.trivial _).bind fun line _ ↦ ?_
  dsimp only
  split
  · refine .check fun _ hnumbers ↦ .check fun _ htexts ↦ .pure ?_
    exact ⟨le_of_countOf hnumbers, le_of_countOf htexts⟩
  · exact .error _

theorem sequential_takeRamSizes : Sequential ended (takeRamSizes ended) := by
  refine (sequential_takeLine ended).bind fun line ↦ ?_
  dsimp only
  split
  · exact .check fun _ ↦ .check fun _ ↦ .check fun _ ↦ .check fun _ ↦ .check fun _ ↦ .pure _
  · exact .error _

/-- A count does not change when it is stored in 32 bits. -/
theorem toNat_ofNat_le {count : Nat} (h : count ≤ maxCount) :
    (UInt32.ofNat count).toNat ≤ maxCount := by
  rw [UInt32.toNat_ofNat']
  exact Nat.le_trans (Nat.mod_le _ _) h

theorem gives_takeRamSizes :
    Gives (takeRamSizes ended) fun ram ↦ ∀ ramClass, (ram.size ramClass).toNat ≤ maxCount := by
  refine (Gives.trivial _).bind fun line _ ↦ ?_
  dsimp only
  split
  · refine .check fun _ hnumericVariables ↦ .check fun _ htextVariables ↦
      .check fun _ hdataReferences ↦ .check fun _ hnumericArrays ↦ .check fun _ htextArrays ↦
      .pure ?_
    rintro (⟨_ | _, _ | _⟩ | _)
    · exact toNat_ofNat_le (le_of_countOf hnumericVariables)
    · exact toNat_ofNat_le (le_of_countOf htextVariables)
    · exact toNat_ofNat_le (le_of_countOf hnumericArrays)
    · exact toNat_ofNat_le (le_of_countOf htextArrays)
    · exact toNat_ofNat_le (le_of_countOf hdataReferences)
  · exact .error _

/-! ### Names and numbers -/

theorem sequential_takeStorage : Sequential ended (takeStorage ended) := by
  refine (sequential_takeLine ended).bind fun name ↦ ?_
  dsimp only
  split_ifs
  · exact .pure name
  · exact .error _

theorem gives_takeStorage :
    Gives (takeStorage ended) fun name ↦ Text.isName name = true := by
  refine (Gives.trivial _).bind fun name _ ↦ ?_
  dsimp only
  split_ifs with hname
  · exact .pure hname
  · exact .error _

theorem sequential_takeFunctions (table : FunctionTable) (count : Nat) :
    Sequential ended (takeFunctions ended table count) := by
  induction count generalizing table with
  | zero => exact .pure table
  | succ count ih =>
    refine (sequential_takeLine ended).bind fun line ↦ ?_
    dsimp only
    split
    · refine .check fun address ↦ ?_
      split
      · exact ih _
      · exact .error _
    · exact .error _

/-- The names of functions are not checked when they are read, but fields of a line are names. -/
theorem gives_takeFunctions {table : FunctionTable} (count : Nat)
    (htable : ∀ entry ∈ table.entries, Text.isName entry.1 = true) :
    Gives (takeFunctions ended table count) fun result ↦
      result.entries.length = table.entries.length + count ∧
        ∀ entry ∈ result.entries, Text.isName entry.1 = true := by
  induction count generalizing table with
  | zero => exact .pure ⟨rfl, htable⟩
  | succ count ih =>
    refine (Gives.trivial _).bind fun line _ ↦ ?_
    dsimp only
    split
    · rename_i name address hfields
      have hname : Text.isName name = true :=
        Text.isName_of_mem_fields (hfields ▸ List.mem_cons_self)
      refine .check fun target _ ↦ ?_
      split
      · rename_i larger hlarger
        have hentries := FunctionTable.entries_declare? hlarger
        have hlength : larger.entries.length = table.entries.length + 1 := by
          rw [hentries, List.length_append, List.length_singleton]
        rw [← Nat.add_assoc, Nat.add_right_comm, ← hlength]
        refine ih ?_
        rw [hentries]
        simpa [or_imp, forall_and] using ⟨fun first second ↦ htable (first, second), hname⟩
      · exact .error _
    · exact .error _

theorem sequential_takeNumber : Sequential ended (takeNumber ended) := by
  refine (sequential_takeLine ended).bind fun line ↦ ?_
  dsimp only
  split
  · exact .pure _
  · exact .error _

theorem gives_takeNumber :
    Gives (takeNumber ended) fun number ↦ number.canonical = number := by
  refine (Gives.trivial _).bind fun line _ ↦ ?_
  dsimp only
  split
  · rename_i number hnumber
    exact .pure (Number.canonical_of_read? hnumber)
  · exact .error _

/-! ### Texts and cells -/

theorem sequential_takeTextWithin (room : Nat) : Sequential ended (takeTextWithin ended room) := by
  intro bytes text rest hread
  have hnil : ∀ room, takeTextWithin ended room [] = .error ended := by
    intro room
    unfold takeTextWithin
    rfl
  induction bytes generalizing room text with
  | nil =>
    rw [hnil] at hread
    cases hread
  | cons byte bytes ih =>
    unfold takeTextWithin at hread
    split_ifs at hread with hzero
    · cases hread
      refine ⟨[byte], rfl, .single (hnil room) fun more ↦ ?_⟩
      unfold takeTextWithin
      exact if_pos hzero
    · cases room with
      | zero => cases hread
      | succ room =>
        dsimp only at hread
        split at hread
        · rename_i tail after htail
          cases hread
          obtain ⟨used, hused, htake⟩ := ih room _ htail
          refine ⟨byte :: used, congrArg (byte :: ·) hused, .cons (hnil _) ?_ ?_ htake⟩
          · intro bytes rest hok
            simp only [takeTextWithin, if_neg hzero, hok]
          · intro bytes error herror
            simp only [takeTextWithin, if_neg hzero, herror]
        · cases hread

theorem gives_takeTextWithin (room : Nat) :
    Gives (takeTextWithin ended room) fun text ↦ text.length ≤ room ∧ 0 ∉ text := by
  intro bytes text rest hread
  induction bytes generalizing room text with
  | nil =>
    rw [takeTextWithin] at hread
    cases hread
  | cons byte bytes ih =>
    unfold takeTextWithin at hread
    split_ifs at hread with hzero
    · cases hread
      simp
    · cases room with
      | zero => cases hread
      | succ room =>
        dsimp only at hread
        split at hread
        · rename_i tail after htail
          cases hread
          obtain ⟨hlength, hnone⟩ := ih room _ htail
          refine ⟨Nat.succ_le_succ hlength, ?_⟩
          rw [List.mem_cons, not_or]
          exact ⟨Ne.symm hzero, hnone⟩
        · cases hread

theorem sequential_takeCell : Sequential ended (takeCell ended) := by
  intro bytes cell rest hread
  unfold takeCell at hread
  split at hread
  · rename_i a b c d after
    cases hread
    refine ⟨[a, b, c, d], rfl, fun more ↦ rfl, ?_⟩
    intro part missing hparts hmissing
    rcases part with _ | ⟨_, _ | ⟨_, _ | ⟨_, _ | ⟨_, part⟩⟩⟩⟩
    · rfl
    · rfl
    · rfl
    · rfl
    · simp only [List.cons_append, List.cons.injEq] at hparts
      exact absurd (List.append_eq_nil_iff.mp hparts.2.2.2.2.symm).2 hmissing
  · cases hread

theorem fits_ofRaw (raw : UInt32) : (Cell.ofRaw raw).fits = true := by
  have hsmall : raw.toNat % 2 ^ 24 % 2 ^ 32 ≤ maxValue := by
    unfold maxValue
    omega
  rw [Cell.fits, Cell.ofRaw, UInt32.toNat_ofNat']
  exact decide_eq_true hsmall

theorem gives_takeCell : Gives (takeCell ended) fun cell ↦ cell.fits = true := by
  intro bytes cell rest hread
  unfold takeCell at hread
  split at hread
  · cases hread
    exact fits_ofRaw _
  · cases hread

/-! ### All of the contents -/

theorem sequential_takeTables : Sequential ended (takeTables ended) :=
  (sequential_takeTableSizes ended).bind fun sizes ↦
    (sequential_takePoolSizes ended).bind fun pools ↦
    (sequential_takeRamSizes ended).bind fun _ ↦
    ((sequential_takeStorage ended).takeMany sizes.storage).bind fun _ ↦
    (sequential_takeFunctions ended .empty sizes.functions).bind fun _ ↦
    ((sequential_takeNumber ended).takeMany pools.numbers).bind fun _ ↦
    ((sequential_takeTextWithin ended imageTextLimit).takeMany pools.texts).bind fun _ ↦ .pure _

theorem sequential_takeCode (sizes : TableSizes) (image : Image) :
    Sequential ended (takeCode ended sizes image) :=
  ((sequential_takeCell ended).takeMany sizes.init).bind fun _ ↦
    ((sequential_takeCell ended).takeMany sizes.program).bind fun _ ↦ .pure _

theorem sequential_takeContents : Sequential ended (takeContents ended ended) :=
  (sequential_takeTables ended).bind fun tables ↦ sequential_takeCode ended tables.1 tables.2

/-- The image without its code fits the format already. -/
theorem gives_takeTables :
    Gives (takeTables ended) fun tables ↦
      (tables.1.init ≤ maxCount ∧ tables.1.program ≤ maxCount) ∧ tables.2.formatError? = none ∧
        ∀ number ∈ tables.2.numbers, number.canonical = number := by
  refine (gives_takeTableSizes ended).bind fun sizes hsizes ↦
    (gives_takePoolSizes ended).bind fun pools hpools ↦
    (gives_takeRamSizes ended).bind fun ram hram ↦
    ((gives_takeStorage ended).takeMany sizes.storage).bind fun storage hstorage ↦
    (gives_takeFunctions ended sizes.functions (by simp [FunctionTable.empty])).bind
      fun functions hfunctions ↦
    ((gives_takeNumber ended).takeMany pools.numbers).bind fun numbers hnumbers ↦
    ((gives_takeTextWithin ended imageTextLimit).takeMany pools.texts).bind fun texts htexts ↦
    .pure ?_
  obtain ⟨hinits, hprograms, hstorages, htable⟩ := hsizes
  have hentries : functions.entries.length = sizes.functions :=
    hfunctions.1.trans (Nat.zero_add _)
  refine ⟨⟨hinits, hprograms⟩, (Image.formatError?_eq_none_iff _).mpr
    ⟨hstorage.2, hfunctions.2, htexts.2, ?_, by simp⟩, hnumbers.2⟩
  simp only [Image.counts, List.forall_mem_cons]
  exact ⟨Nat.zero_le _, Nat.zero_le _, hstorage.1.trans_le hstorages, hentries.trans_le htable,
    hnumbers.1.trans_le hpools.1, htexts.1.trans_le hpools.2, hram (.values .single .numeric),
    hram (.values .single .text), hram .data, hram (.values .array .numeric),
    hram (.values .array .text), by simp⟩

/-- The code that is read adds as many cells as announced, all of which fit the format. -/
theorem gives_takeCode (sizes : TableSizes) (image : Image) :
    Gives (takeCode ended sizes image) fun result ↦ ∃ init program,
      result = { image with init, program } ∧
        (init.length = sizes.init ∧ ∀ cell ∈ init, cell.fits = true) ∧
        program.length = sizes.program ∧ ∀ cell ∈ program, cell.fits = true :=
  ((gives_takeCell ended).takeMany sizes.init).bind fun init hinit ↦
    ((gives_takeCell ended).takeMany sizes.program).bind fun program hprogram ↦
    .pure ⟨init, program, rfl, hinit, hprogram⟩

/-- What is read fits the format, and its numbers are what their texts read back as. -/
theorem gives_takeContents (cellsEnded : ReadError) :
    Gives (takeContents ended cellsEnded) fun image ↦
      image.formatError? = none ∧ ∀ number ∈ image.numbers, number.canonical = number := by
  refine (gives_takeTables ended).bind fun tables htables bytes image rest hread ↦ ?_
  obtain ⟨⟨hinits, hprograms⟩, hformat, hnumbers⟩ := htables
  obtain ⟨init, program, rfl, hinit, hprogram⟩ :=
    gives_takeCode cellsEnded tables.1 tables.2 bytes image rest hread
  obtain ⟨hstorage, hfunctions, htexts, hcounts, -⟩ :=
    (Image.formatError?_eq_none_iff _).mp hformat
  refine ⟨(Image.formatError?_eq_none_iff _).mpr ⟨hstorage, hfunctions, htexts, ?_,
    List.forall_mem_append.mpr ⟨hinit.2, hprogram.2⟩⟩, hnumbers⟩
  simp only [Image.counts, List.forall_mem_cons] at hcounts ⊢
  exact ⟨hinit.1.trans_le hinits, hprogram.1.trans_le hprograms, hcounts.2.2⟩

/-- A stream that does not fail is the line of the version, the contents and nothing more. -/
theorem takeImage_eq (bytes : Bytes) :
    takeImage { bytes } = (do
      let (_, bytes) ← takeVersion { bytes } .truncated
      let (image, rest) ← takeContents .truncated .truncated bytes
      if rest = [] then return image else .error .trailingBytes) := by
  refine bind_congr fun found ↦ bind_congr fun item ↦ ?_
  obtain ⟨image, rest⟩ := item
  cases rest with
  | nil => rfl
  | cons byte rest => rfl

/-- What reading an image comes down to. -/
theorem exists_of_readImage {bytes : Bytes} {image : Image} (h : readImage { bytes } = .ok image) :
    ∃ body, takeVersion { bytes } .truncated = .ok ((), body) ∧
      takeContents .truncated .truncated body = .ok (image, []) ∧ image.fault? = none := by
  obtain ⟨found, htake, hverify⟩ := exists_of_bind_eq_ok h
  rw [takeImage_eq] at htake
  obtain ⟨⟨⟨⟩, body⟩, hversion, hbody⟩ := exists_of_bind_eq_ok htake
  obtain ⟨⟨contents, rest⟩, hcontents, hend⟩ := exists_of_bind_eq_ok hbody
  dsimp only at hend
  split_ifs at hend with hrest
  cases hend
  split at hverify
  · cases hverify
  · rename_i hfault
    cases hverify
    exact ⟨body, hversion, hrest ▸ hcontents, hfault⟩

end LineScript
