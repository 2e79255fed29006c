import LineScript.Image.Reader
import LineScript.Proofs.Number.RoundTrip
import LineScript.Proofs.Text.Pieces

/-!
The parts of the image format. Each reader returns what the writer of its part was given and leaves
the bytes after it, whatever these are: counts on a line, names, functions, numbers, texts and
cells. Things that are written one after the other are read one after the other.
-/

set_option autoImplicit false
set_option relaxedAutoImplicit false

namespace LineScript

open Bytes

variable (ended : ReadError)

theorem takeLine_append {line : Bytes} (hline : 0x0A ∉ line) (rest : Bytes) :
    takeLine ended (line ++ 0x0A :: rest) = .ok (line, rest) := by
  induction line with
  | nil => rfl
  | cons byte line ih =>
    rw [List.mem_cons, not_or] at hline
    rw [List.cons_append, takeLine, if_neg (Ne.symm hline.1), ih hline.2]

/-- What is written in a row is read in a row. -/
theorem takeMany_flatMap {α : Type} {take : Bytes → Except ReadError (α × Bytes)}
    {written : α → Bytes} {read : α → α} {items : List α}
    (htake : ∀ item ∈ items, ∀ rest, take (written item ++ rest) = .ok (read item, rest))
    (rest : Bytes) :
    takeMany take items.length (items.flatMap written ++ rest) = .ok (items.map read, rest) := by
  induction items with
  | nil => rfl
  | cons item items ih =>
    have hitem := htake item List.mem_cons_self (items.flatMap written ++ rest)
    have hitems := ih fun other hother ↦ htake other (List.mem_cons_of_mem _ hother)
    rw [List.flatMap_cons, List.append_assoc, List.length_cons, takeMany, hitem]
    simp only [bind, Except.bind, hitems]
    rfl

theorem takeMany_flatMap_self {α : Type} {take : Bytes → Except ReadError (α × Bytes)}
    {written : α → Bytes} {items : List α}
    (htake : ∀ item ∈ items, ∀ rest, take (written item ++ rest) = .ok (item, rest))
    (rest : Bytes) :
    takeMany take items.length (items.flatMap written ++ rest) = .ok (items, rest) := by
  rw [takeMany_flatMap htake, List.map_id']

/-! ### Counts -/

theorem natural32?_decimal {n : Nat} (h : n < 2 ^ 32) : natural32? (decimal n) = some n := by
  have hempty : (decimal n).isEmpty = false := by
    simpa using decimal_ne_nil n
  have hdigits : (decimal n).all isDigit = true := by
    rw [List.all_eq_true]
    exact isDigit_of_mem_decimal
  have hsmall : n < 4294967296 := h
  simp [natural32?, hempty, hdigits, hsmall]

theorem countOf_decimal {n : Nat} (h : n ≤ maxCount) : countOf (decimal n) = .ok n := by
  have hsmall : maxCount < 2 ^ 32 := by decide
  rw [countOf, natural32?_decimal (Nat.lt_of_le_of_lt h hsmall)]
  simp only
  rw [if_neg (Nat.not_lt.mpr h)]

theorem isName_decimal (n : Nat) : Text.isName (decimal n) = true := by
  refine Text.isName_of_ascii (decimal_ne_nil n) fun byte hbyte ↦ ?_
  have hdigit := (isDigit_iff byte).mp (isDigit_of_mem_decimal byte hbyte)
  omega

theorem newline_notMem_joined {names : List Bytes} (h : ∀ name ∈ names, 0x0A ∉ name) :
    0x0A ∉ joined [0x20] names := by
  induction names with
  | nil => simp [joined]
  | cons name rest ih =>
    have hname := h name List.mem_cons_self
    have hrest := ih fun other hother ↦ h other (List.mem_cons_of_mem _ hother)
    cases rest with
    | nil => exact hname
    | cons next rest =>
      rw [Text.joined_cons_cons, List.mem_append, List.mem_append, not_or, not_or]
      exact ⟨⟨hname, by decide⟩, hrest⟩

/-- A line of counts has the numerals of the counts as its fields. -/
theorem exists_takeLine_countLine (counts : List Nat) (rest : Bytes) :
    ∃ line, takeLine ended (countLine counts ++ rest) = .ok (line, rest) ∧
      Text.fields line = counts.map decimal := by
  have hnames : ∀ name ∈ counts.map decimal, Text.isName name = true := by
    intro name hname
    obtain ⟨n, -, rfl⟩ := List.mem_map.mp hname
    exact isName_decimal n
  refine ⟨joined [0x20] (counts.map decimal), ?_, Text.fields_joined hnames⟩
  rw [countLine, List.append_assoc, List.singleton_append]
  exact takeLine_append ended (newline_notMem_joined fun name hname ↦
    Text.newline_notMem_of_isName (hnames name hname)) rest

theorem takeTableSizes_countLine {init program storage functions : Nat} (hinit : init ≤ maxCount)
    (hprogram : program ≤ maxCount) (hstorage : storage ≤ maxCount)
    (hfunctions : functions ≤ maxCount) (rest : Bytes) :
    takeTableSizes ended (countLine [init, program, storage, functions] ++ rest) =
      .ok (⟨init, program, storage, functions⟩, rest) := by
  obtain ⟨line, hline, hfields⟩ :=
    exists_takeLine_countLine ended [init, program, storage, functions] rest
  simp only [takeTableSizes, hline, hfields, List.map_cons, List.map_nil, bind, Except.bind,
    countOf_decimal hinit, countOf_decimal hprogram, countOf_decimal hstorage,
    countOf_decimal hfunctions]
  rfl

theorem takePoolSizes_countLine {numbers texts : Nat} (hnumbers : numbers ≤ maxCount)
    (htexts : texts ≤ maxCount) (rest : Bytes) :
    takePoolSizes ended (countLine [numbers, texts] ++ rest) = .ok (⟨numbers, texts⟩, rest) := by
  obtain ⟨line, hline, hfields⟩ := exists_takeLine_countLine ended [numbers, texts] rest
  simp only [takePoolSizes, hline, hfields, List.map_cons, List.map_nil, bind, Except.bind,
    countOf_decimal hnumbers, countOf_decimal htexts]
  rfl

/-- The header lists the classes of memory in an order of its own. -/
theorem takeRamSizes_countLine {ram : RamSizes}
    (hram : ∀ ramClass, (ram.size ramClass).toNat ≤ maxCount) (rest : Bytes) :
    takeRamSizes ended
      (countLine [ram.numericVariables.toNat, ram.textVariables.toNat, ram.dataReferences.toNat,
        ram.numericArrays.toNat, ram.textArrays.toNat] ++ rest) = .ok (ram, rest) := by
  obtain ⟨line, hline, hfields⟩ := exists_takeLine_countLine ended
    [ram.numericVariables.toNat, ram.textVariables.toNat, ram.dataReferences.toNat,
      ram.numericArrays.toNat, ram.textArrays.toNat] rest
  have hnumericVariables : countOf (decimal ram.numericVariables.toNat) = .ok _ :=
    countOf_decimal (hram (.values .single .numeric))
  have htextVariables : countOf (decimal ram.textVariables.toNat) = .ok _ :=
    countOf_decimal (hram (.values .single .text))
  have hdataReferences : countOf (decimal ram.dataReferences.toNat) = .ok _ :=
    countOf_decimal (hram .data)
  have hnumericArrays : countOf (decimal ram.numericArrays.toNat) = .ok _ :=
    countOf_decimal (hram (.values .array .numeric))
  have htextArrays : countOf (decimal ram.textArrays.toNat) = .ok _ :=
    countOf_decimal (hram (.values .array .text))
  simp only [takeRamSizes, hline, hfields, List.map_cons, List.map_nil, bind, Except.bind,
    hnumericVariables, htextVariables, hdataReferences, hnumericArrays, htextArrays,
    UInt32.ofNat_toNat]
  rfl

/-! ### Names, numbers and texts -/

theorem takeStorage_append {name : Bytes} (h : Text.isName name = true) (rest : Bytes) :
    takeStorage ended (name ++ [0x0A] ++ rest) = .ok (name, rest) := by
  rw [takeStorage, List.append_assoc, List.singleton_append,
    takeLine_append ended (Text.newline_notMem_of_isName h)]
  simp only [bind, Except.bind, h]
  rfl

theorem takeNumber_append (number : Number) (rest : Bytes) :
    takeNumber ended (number.text ++ [0x0A] ++ rest) = .ok (number.canonical, rest) := by
  rw [takeNumber, List.append_assoc, List.singleton_append,
    takeLine_append ended number.newline_notMem_text]
  simp only [bind, Except.bind, number.read?_text]
  rfl

theorem takeTextWithin_append {text : Bytes} {room : Nat} (hlength : text.length ≤ room)
    (hzero : 0 ∉ text) (rest : Bytes) :
    takeTextWithin ended room (text ++ 0 :: rest) = .ok (text, rest) := by
  induction text generalizing room with
  | nil =>
    unfold takeTextWithin
    rfl
  | cons byte text ih =>
    rw [List.mem_cons, not_or] at hzero
    cases room with
    | zero => cases hlength
    | succ room =>
      rw [List.cons_append, takeTextWithin, if_neg (Ne.symm hzero.1)]
      simp only [ih (Nat.le_of_succ_le_succ hlength) hzero.2]

theorem takeText_append {text : Bytes} (hlength : text.length ≤ imageTextLimit)
    (hzero : 0 ∉ text) (rest : Bytes) :
    takeText ended (text ++ [0x00] ++ rest) = .ok (text, rest) := by
  rw [takeText, List.append_assoc, List.singleton_append]
  exact takeTextWithin_append ended hlength hzero rest

/-! ### Cells -/

theorem value_lt_of_fits {cell : Cell} (h : cell.fits = true) : cell.value.toNat < 2 ^ 24 := by
  have hle : cell.value.toNat ≤ maxValue := of_decide_eq_true h
  unfold maxValue at hle
  omega

theorem toNat_raw {cell : Cell} (h : cell.fits = true) :
    cell.raw.toNat = cell.code.toNat * 2 ^ 24 + cell.value.toNat := by
  have hcode := cell.code.toNat_lt
  have hvalue := value_lt_of_fits h
  rw [Cell.raw, UInt32.toNat_ofNat']
  omega

theorem ofRaw_raw {cell : Cell} (h : cell.fits = true) : Cell.ofRaw cell.raw = cell := by
  have hvalue := value_lt_of_fits h
  have hhigh : cell.raw.toNat / 2 ^ 24 = cell.code.toNat := by
    rw [toNat_raw h]
    omega
  have hlow : cell.raw.toNat % 2 ^ 24 = cell.value.toNat := by
    rw [toNat_raw h]
    omega
  rw [Cell.ofRaw, hhigh, hlow, UInt8.ofNat_toNat, UInt32.ofNat_toNat]

/-- The bytes of a word, from the lowest on, are its digits to the base 256. -/
theorem sum_littleEndian (word : UInt32) :
    (UInt8.ofNat word.toNat).toNat + (UInt8.ofNat (word.toNat / 2 ^ 8)).toNat * 2 ^ 8 +
      (UInt8.ofNat (word.toNat / 2 ^ 16)).toNat * 2 ^ 16 +
      (UInt8.ofNat (word.toNat / 2 ^ 24)).toNat * 2 ^ 24 = word.toNat := by
  have hword := word.toNat_lt
  simp only [UInt8.toNat_ofNat']
  omega

theorem takeCell_littleEndian {cell : Cell} (h : cell.fits = true) (rest : Bytes) :
    takeCell ended (littleEndian cell.raw ++ rest) = .ok (cell, rest) := by
  rw [littleEndian, List.cons_append, List.cons_append, List.cons_append, List.singleton_append,
    takeCell, sum_littleEndian, UInt32.ofNat_toNat, ofRaw_raw h]

/-! ### The mark and the version -/

theorem takeVersion_append (rest : Bytes) :
    takeVersion { bytes := imageMark ++ 0x20 :: decimal imageVersion ++ 0x0A :: rest } ended =
      .ok ((), rest) := by
  have hversion : decimal imageVersion = [0x30] := by
    rw [imageVersion, decimal]
    rfl
  have hline : takeLine ended (imageMark ++ 0x20 :: decimal imageVersion ++ 0x0A :: rest) =
      .ok (imageMark ++ [0x20, 0x30], rest) := by
    rw [hversion]
    exact takeLine_append ended (by decide) rest
  have hmark : (imageMark ++ [0x20, 0x30]).takeWhile (fun byte ↦ !(byte == 0x20)) = imageMark := by
    decide
  have htext : ((imageMark ++ [0x20, 0x30]).dropWhile (fun byte ↦ !(byte == 0x20))).drop 1 =
      [0x30] := by
    decide
  have hnatural : natural32? [0x30] = some 0 := by decide
  simp only [takeVersion, hline, hmark, htext, hnatural, ne_eq, not_true_eq_false, if_false, bind,
    Except.bind]
  rfl

end LineScript
