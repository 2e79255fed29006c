import LineScript.Proofs.Source.Scope
import Mathlib.Data.List.Forall2

/-!
Reading a source, told line by line. The bytes of a stream are cut at the newlines in one way only,
and each line is read on its own with its number. Reading stops at the first line that is refused
or is more than one deeper than the line before it, and reports that line; it keeps the lines with
words before it. A stream that fails does so after the lines that a newline ends.
-/

set_option autoImplicit false
set_option relaxedAutoImplicit false

namespace LineScript

open Bytes

/-! ### Physical lines -/

/-- `ended` are the pieces of `bytes` that a newline ends, and `tail` is what follows them. -/
structure IsCut (bytes : Bytes) (ended : List Bytes) (tail : Bytes) : Prop where
  bytes_eq : bytes = ended.flatMap (· ++ [0x0A]) ++ tail
  ended : ∀ piece ∈ ended, 0x0A ∉ piece
  tail : 0x0A ∉ tail

/-- `text` is `piece` without one carriage return at its end, if there is one. -/
def IsTrimmed (piece text : Bytes) : Prop :=
  piece = text ++ [0x0D] ∨ piece = text ∧ piece.getLast? ≠ some 0x0D

/-- The physical lines of a stream. What follows the last newline is one if it is not empty, unless
the stream fails. -/
def ByteStream.HasLines (stream : ByteStream) (texts : List Bytes) : Prop :=
  ∃ ended tail, IsCut stream.bytes ended tail ∧
    List.Forall₂ IsTrimmed
      (if stream.failure = none ∧ tail ≠ [] then ended ++ [tail] else ended) texts

theorem cutLines_of_notMem {tail : Bytes} (h : 0x0A ∉ tail) : cutLines tail = ([], tail) := by
  induction tail with
  | nil => rfl
  | cons byte rest ih =>
    rw [List.mem_cons, not_or] at h
    rw [cutLines, ih h.2]
    exact if_neg (Ne.symm h.1)

theorem cutLines_append {piece : Bytes} (h : 0x0A ∉ piece) (rest : Bytes) :
    cutLines (piece ++ 0x0A :: rest) = (piece :: (cutLines rest).1, (cutLines rest).2) := by
  induction piece with
  | nil => rfl
  | cons byte piece ih =>
    rw [List.mem_cons, not_or] at h
    rw [List.cons_append, cutLines, ih h.2]
    exact if_neg (Ne.symm h.1)

/-- There is one way to cut at newlines. -/
theorem IsCut.cutLines_eq {bytes tail : Bytes} {ended : List Bytes} (h : IsCut bytes ended tail) :
    cutLines bytes = (ended, tail) := by
  obtain ⟨rfl, hended, htail⟩ := h
  induction ended with
  | nil => exact cutLines_of_notMem htail
  | cons piece ended ih =>
    rw [List.forall_mem_cons] at hended
    rw [List.flatMap_cons, List.append_assoc, List.append_assoc, List.singleton_append,
      cutLines_append hended.1, ih hended.2]

theorem isCut_cutLines (bytes : Bytes) : IsCut bytes (cutLines bytes).1 (cutLines bytes).2 := by
  induction bytes with
  | nil => exact ⟨rfl, List.forall_mem_nil _, List.not_mem_nil⟩
  | cons byte rest ih =>
    obtain ⟨hbytes, hended, htail⟩ := ih
    rw [cutLines]
    generalize cutLines rest = cut at *
    obtain ⟨ended, tail⟩ := cut
    dsimp only at *
    split_ifs with hnewline
    · refine ⟨?_, List.forall_mem_cons.mpr ⟨List.not_mem_nil, hended⟩, htail⟩
      rw [hnewline, hbytes]
      rfl
    · cases ended with
      | nil =>
        refine ⟨congrArg (byte :: ·) hbytes, hended, ?_⟩
        rw [List.mem_cons, not_or]
        exact ⟨Ne.symm hnewline, htail⟩
      | cons piece ended =>
        rw [List.forall_mem_cons] at hended
        refine ⟨congrArg (byte :: ·) hbytes, List.forall_mem_cons.mpr ⟨?_, hended.2⟩, htail⟩
        rw [List.mem_cons, not_or]
        exact ⟨Ne.symm hnewline, hended.1⟩

theorem isTrimmed_iff (piece text : Bytes) : IsTrimmed piece text ↔ withoutReturn piece = text := by
  unfold IsTrimmed withoutReturn
  split_ifs with hreturn
  · have hsplit : piece.dropLast ++ [0x0D] = piece := List.dropLast_append_getLast? _ hreturn
    constructor
    · rintro (rfl | ⟨-, hnot⟩)
      · exact List.dropLast_concat
      · exact absurd hreturn hnot
    · rintro rfl
      exact Or.inl hsplit.symm
  · constructor
    · rintro (rfl | ⟨rfl, -⟩)
      · exact absurd List.getLast?_concat hreturn
      · rfl
    · rintro rfl
      exact Or.inr ⟨rfl, hreturn⟩

/-- The lines of a stream are its physical lines. -/
theorem hasLines_iff (stream : ByteStream) (texts : List Bytes) :
    stream.HasLines texts ↔ texts = stream.lines := by
  have htrimmed : ∀ pieces : List Bytes,
      List.Forall₂ IsTrimmed pieces texts ↔ texts = pieces.map withoutReturn := by
    intro pieces
    have hrelation : IsTrimmed = fun piece text ↦ withoutReturn piece = text :=
      funext₂ fun piece text ↦ propext (isTrimmed_iff piece text)
    rw [hrelation, ← List.forall₂_map_left_iff (R := Eq), List.forall₂_eq_eq_eq, eq_comm]
  have hlines : stream.lines =
      (if stream.failure = none ∧ (cutLines stream.bytes).2 ≠ [] then
        (cutLines stream.bytes).1 ++ [(cutLines stream.bytes).2]
      else (cutLines stream.bytes).1).map withoutReturn := by
    unfold ByteStream.lines
    split_ifs <;> simp_all
  constructor
  · rintro ⟨ended, tail, hcut, htexts⟩
    rw [hlines, hcut.cutLines_eq]
    exact (htrimmed _).mp htexts
  · intro htexts
    exact ⟨_, _, isCut_cutLines stream.bytes, (htrimmed _).mpr (htexts.trans hlines)⟩

theorem IsCut.count_newline {bytes tail : Bytes} {ended : List Bytes} (h : IsCut bytes ended tail) :
    bytes.count 0x0A = ended.length := by
  obtain ⟨rfl, hended, htail⟩ := h
  rw [List.count_append, List.count_eq_zero.mpr htail, Nat.add_zero, List.count_flatMap]
  have hone : ∀ piece ∈ ended, (List.count 0x0A ∘ (· ++ [0x0A])) piece = 1 := by
    intro piece hpiece
    rw [Function.comp_apply, List.count_append, List.count_eq_zero.mpr (hended piece hpiece)]
    rfl
  rw [List.map_congr_left hone, List.map_const', List.sum_replicate_nat, Nat.mul_one]

/-- A stream that fails has one line for each newline. -/
theorem length_lines_of_failure {stream : ByteStream} (h : stream.failure ≠ none) :
    stream.lines.length = stream.bytes.count 0x0A := by
  have hfails : stream.failure.isNone = false := by
    rwa [← Bool.not_eq_true, Option.isNone_iff_eq_none]
  rw [(isCut_cutLines stream.bytes).count_newline, ByteStream.lines]
  simp [hfails]

/-! ### Readings -/

theorem getElem?_readings (rules : ReadingRules) (number : Nat) (texts : List Bytes) (index : Nat) :
    (readings rules number texts)[index]? =
      texts[index]?.map (readLine rules ((number + index : Nat) : Int)) := by
  induction texts generalizing number index with
  | nil => rfl
  | cons text rest ih =>
    cases index with
    | zero => rfl
    | succ index =>
      rw [readings, List.getElem?_cons_succ, List.getElem?_cons_succ, ih, Nat.add_right_comm,
        Nat.add_assoc]

/-- What reading makes of words without tabs at some scope. -/
inductive ReadsTo (rules : ReadingRules) (number : Int) (scope : Nat) :
    List Word → LineReading → Prop where
  | blank : ReadsTo rules number scope [] ⟨⟨scope, number, []⟩, none⟩
  | misled {first : Word} {rest : List Word} (hlead : Statement.mayLead scope first = false) :
      ReadsTo rules number scope (first :: rest)
        ⟨⟨scope, number, first :: rest⟩, some (.firstWord scope first.text)⟩
  | violating {first : Word} {rest : List Word} {violation : Statement.Violation}
      (hlead : Statement.mayLead scope first = true) (hstrict : rules.strict = true)
      (hviolation : Statement.violation? (first :: rest) = some violation) :
      ReadsTo rules number scope (first :: rest)
        ⟨⟨scope, number, first :: rest⟩, some (.statement violation)⟩
  | strict {first : Word} {rest : List Word} (hlead : Statement.mayLead scope first = true)
      (hstrict : rules.strict = true) (hviolation : Statement.violation? (first :: rest) = none) :
      ReadsTo rules number scope (first :: rest)
        ⟨⟨scope, number, includedAsText (first :: rest)⟩, none⟩
  | plain {first : Word} {rest : List Word} (hlead : Statement.mayLead scope first = true)
      (hstrict : rules.strict = false) :
      ReadsTo rules number scope (first :: rest) ⟨⟨scope, number, first :: rest⟩, none⟩

/-- A line that is not refused as it is cut into words is read by its words without the tabs, at the
scope that the tabs before them give. -/
theorem readLine_cases (rules : ReadingRules) (number : Int) (text : Bytes) :
    (∃ error, (tokenize rules.textLimit text).error = some error ∧
      readLine rules number text = ⟨⟨0, number, []⟩, some (.lexical error)⟩) ∨
    (tokenize rules.textLimit text).error = none ∧
      ReadsTo rules number ((tokenize rules.textLimit text).words.takeWhile Word.isTab).length
        ((tokenize rules.textLimit text).words.filter (!·.isTab)) (readLine rules number text) := by
  unfold readLine
  dsimp only
  split
  · rename_i error herror
    exact Or.inl ⟨error, herror, rfl⟩
  · rename_i herror
    refine Or.inr ⟨herror, ?_⟩
    generalize List.length _ = scope
    generalize (tokenize rules.textLimit text).words.filter (!·.isTab) = words
    cases words with
    | nil => exact .blank
    | cons first rest =>
      dsimp only
      split_ifs with hlead hstrict
      · exact .misled ((Bool.not_eq_true' _).mp hlead)
      · have hleads : Statement.mayLead scope first = true := by simpa using hlead
        split
        · rename_i violation hviolation
          exact .violating hleads hstrict hviolation
        · rename_i hviolation
          exact .strict hleads hstrict hviolation
      · exact .plain (by simpa using hlead) (Bool.not_eq_true _ ▸ hstrict)

theorem ReadsTo.number_eq {rules : ReadingRules} {number : Int} {scope : Nat} {words : List Word}
    {reading : LineReading} (h : ReadsTo rules number scope words reading) :
    reading.line.number = number := by
  cases h <;> rfl

theorem number_readLine (rules : ReadingRules) (number : Int) (text : Bytes) :
    (readLine rules number text).line.number = number := by
  rcases readLine_cases rules number text with ⟨error, -, hreading⟩ | ⟨-, hreading⟩
  · rw [hreading]
  · exact hreading.number_eq

/-- A line with words that may stand where it stands: no tab is left among them, and the first one
may lead a line of its scope. -/
structure Line.IsKept (line : Line) : Prop where
  noTab : ∀ word ∈ line.words, word.kind ≠ .tab
  leads : ∃ first rest, line.words = first :: rest ∧ Statement.mayLead line.scope first = true

/-- Making a file name a text changes neither the first word nor any word into a tab. -/
theorem exists_includedAsText (first : Word) {rest : List Word}
    (h : ∀ word ∈ rest, word.kind ≠ .tab) :
    ∃ more, includedAsText (first :: rest) = first :: more ∧ ∀ word ∈ more, word.kind ≠ .tab := by
  cases rest with
  | nil => exact ⟨[], rfl, h⟩
  | cons file rest =>
    rw [includedAsText]
    split_ifs
    · refine ⟨_, rfl, List.forall_mem_cons.mpr ⟨?_, (List.forall_mem_cons.mp h).2⟩⟩
      rintro ⟨⟩
    · exact ⟨_, rfl, h⟩

theorem ReadsTo.isKept {rules : ReadingRules} {number : Int} {scope : Nat} {words : List Word}
    {reading : LineReading} (h : ReadsTo rules number scope words reading)
    (htab : ∀ word ∈ words, word.kind ≠ .tab) (herror : reading.error = none)
    (hwords : reading.line.hasWords = true) : reading.line.IsKept := by
  cases h with
  | blank => cases hwords
  | misled hlead => cases herror
  | violating hlead hstrict hviolation => cases herror
  | @strict first rest hlead hstrict hviolation =>
    obtain ⟨hfirst, hrest⟩ := List.forall_mem_cons.mp htab
    obtain ⟨more, hmore, htabs⟩ := exists_includedAsText first hrest
    dsimp only
    rw [hmore]
    exact ⟨List.forall_mem_cons.mpr ⟨hfirst, htabs⟩, first, more, rfl, hlead⟩
  | @plain first rest hlead hstrict => exact ⟨htab, first, rest, rfl, hlead⟩

theorem isKept_readLine {rules : ReadingRules} {number : Int} {text : Bytes}
    (herror : (readLine rules number text).error = none)
    (hwords : (readLine rules number text).line.hasWords = true) :
    (readLine rules number text).line.IsKept := by
  rcases readLine_cases rules number text with ⟨error, -, hreading⟩ | ⟨-, hreading⟩
  · rw [hreading] at herror
    cases herror
  · refine hreading.isKept ?_ herror hwords
    intro word hword
    simpa [Word.isTab] using (List.mem_filter.mp hword).2

/-! ### Steps -/

section Steps

variable {rules : ReadingRules} {failure : Option StreamFailure} {number scope : Nat} {text : Bytes}

theorem readLines_cons_of_error {error : LineError}
    (h : (readLine rules number text).error = some error) (rest : List Bytes) :
    readLines rules failure number scope (text :: rest) = ⟨[], some ⟨number, .line error⟩⟩ := by
  rw [readLines, h]

theorem readLines_cons_of_deep (herror : (readLine rules number text).error = none)
    (hdeep : scope + 1 < (readLine rules number text).line.scope) (rest : List Bytes) :
    readLines rules failure number scope (text :: rest) =
      ⟨[], some ⟨number, .tooDeep (readLine rules number text).line.scope⟩⟩ := by
  rw [readLines, herror]
  exact if_pos hdeep

theorem readLines_cons_of_fits (herror : (readLine rules number text).error = none)
    (hfits : (readLine rules number text).line.scope ≤ scope + 1) (rest : List Bytes) :
    readLines rules failure number scope (text :: rest) =
      (readLines rules failure (number + 1) (readLine rules number text).line.scope rest).cons
        (readLine rules number text).line := by
  rw [readLines, herror]
  exact if_neg (Nat.not_lt.mpr hfits)

theorem source_cons_eq (line : Line) (source : Source) :
    source.cons line = ⟨[line].filter Line.hasWords ++ source.lines, source.stop⟩ := by
  obtain ⟨scope, number, words⟩ := line
  cases words <;> rfl

/-- A line that reading gets past is not refused, and is at most one deeper than the line before
it. -/
theorem fits_of_stop_eq_none {rest : List Bytes}
    (h : (readLines rules failure number scope (text :: rest)).stop = none) :
    (readLine rules number text).error = none ∧
      (readLine rules number text).line.scope ≤ scope + 1 := by
  cases herror : (readLine rules number text).error with
  | some error =>
    rw [readLines_cons_of_error herror] at h
    cases h
  | none =>
    refine ⟨rfl, Nat.not_lt.mp fun hdeep ↦ ?_⟩
    rw [readLines_cons_of_deep herror hdeep] at h
    cases h

end Steps

/-! ### Where reading stops -/

/-- Whether reading stops at a line, when the line before the first has the given scope: the line is
refused, or more than one deeper than the line before it. -/
def Blocks (scope : Nat) (items : List LineReading) (index : Nat) : Prop :=
  ∃ reading, items[index]? = some reading ∧
    (reading.error ≠ none ∨
      scopeAfter scope ((items.take index).map (·.line)) + 1 < reading.line.scope)

/-- The first line at which reading stops. -/
def BlocksFirst (scope : Nat) (items : List LineReading) (index : Nat) : Prop :=
  Blocks scope items index ∧ ∀ earlier < index, ¬ Blocks scope items earlier

/-- The lines with words. -/
def keptLines (items : List LineReading) : List Line :=
  (items.map (·.line)).filter Line.hasWords

/-- Why reading stops at a line. -/
def LineReading.stopCause (reading : LineReading) : StopCause :=
  match reading.error with
  | some error => .line error
  | none => .tooDeep reading.line.scope

section Blocks

variable {scope index : Nat} {reading : LineReading} {rest : List LineReading}

theorem blocks_zero_iff :
    Blocks scope (reading :: rest) 0 ↔ reading.error ≠ none ∨ scope + 1 < reading.line.scope := by
  constructor
  · rintro ⟨found, hfound, hstop⟩
    cases hfound
    exact hstop
  · intro hstop
    exact ⟨reading, rfl, hstop⟩

theorem not_blocks_succ (hfirst : ¬ Blocks scope (reading :: rest) 0)
    (h : ∀ earlier < index, ¬ Blocks reading.line.scope rest earlier) :
    ∀ earlier < index + 1, ¬ Blocks scope (reading :: rest) earlier := by
  intro earlier hearlier
  cases earlier with
  | zero => exact hfirst
  | succ earlier => exact h earlier (Nat.lt_of_succ_lt_succ hearlier)

end Blocks

theorem cons_keptLines (reading : LineReading) (items : List LineReading) (stop : Option Stop) :
    (Source.mk (keptLines items) stop).cons reading.line =
      ⟨keptLines (reading :: items), stop⟩ := by
  obtain ⟨⟨scope, number, words⟩, error⟩ := reading
  cases words <;> rfl

/-- Reading lines stops at the first one that blocks, or reaches the end of them. -/
theorem readLines_cases (rules : ReadingRules) (failure : Option StreamFailure) (number scope : Nat)
    (texts : List Bytes) :
    (∃ index reading, (readings rules number texts)[index]? = some reading ∧
      BlocksFirst scope (readings rules number texts) index ∧
      readLines rules failure number scope texts =
        ⟨keptLines ((readings rules number texts).take index),
          some ⟨number + index, reading.stopCause⟩⟩) ∨
    (∀ index, ¬ Blocks scope (readings rules number texts) index) ∧
      readLines rules failure number scope texts =
        ⟨keptLines (readings rules number texts),
          failure.map fun failure ↦ ⟨number + texts.length, .readFailed failure.message⟩⟩ := by
  induction texts generalizing number scope with
  | nil =>
    refine Or.inr ⟨?_, rfl⟩
    rintro index ⟨reading, hreading, -⟩
    cases hreading
  | cons text rest ih =>
    by_cases hblocks : Blocks scope (readings rules number (text :: rest)) 0
    · refine Or.inl ⟨0, readLine rules number text, rfl, ⟨hblocks, ?_⟩, ?_⟩
      · intro earlier hearlier
        cases hearlier
      · rw [readings, blocks_zero_iff] at hblocks
        rw [readLines, LineReading.stopCause]
        cases herror : (readLine rules number text).error with
        | some error => rfl
        | none =>
          have hdeep := hblocks.resolve_left (not_not.mpr herror)
          exact if_pos hdeep
    · have hfirst := hblocks
      rw [readings, blocks_zero_iff, not_or, not_not] at hfirst
      have hsource : readLines rules failure number scope (text :: rest) =
          (readLines rules failure (number + 1) (readLine rules number text).line.scope rest).cons
            (readLine rules number text).line := by
        rw [readLines, hfirst.1]
        exact if_neg hfirst.2
      rw [hsource]
      rcases ih (number + 1) (readLine rules number text).line.scope with
        ⟨index, reading, hreading, ⟨hindex, hearlier⟩, hrest⟩ | ⟨hnone, hrest⟩
      · refine Or.inl ⟨index + 1, reading, hreading, ⟨hindex, not_blocks_succ hblocks hearlier⟩, ?_⟩
        rw [hrest, cons_keptLines, readings, List.take_succ_cons, Nat.add_right_comm, Nat.add_assoc]
      · refine Or.inr ⟨?_, ?_⟩
        · intro index
          exact not_blocks_succ hblocks (fun earlier _ ↦ hnone earlier) index
            (Nat.lt_succ_self index)
        · rw [hrest, cons_keptLines, readings, List.length_cons, Nat.add_right_comm, Nat.add_assoc]

/-! ### Reports -/

/-- The report of a line at which reading stops: that of the refused line, or that it is too
deep. -/
def LineReading.stopReport (reading : LineReading) (file : Bytes) : Failure :=
  (reading.failure? file).getD
    (.single { category := .indentation, message := utf8 "Too many leading tabs"
               line := reading.line.number, file })

/-- Whether a failure is reported at a line of a file. -/
def Failure.IsAt (failure : Failure) (line : Int) (file : Bytes) : Prop :=
  ∃ diagnostic, failure.diagnostic? = some diagnostic ∧
    diagnostic.line = line ∧ diagnostic.file = file

/-- The report of a refused line does not name a file before it is put at its position. -/
theorem file_diagnostic (error : LineError) : error.diagnostic.file = [] := by
  cases error with
  | lexical error => cases error <;> rfl
  | firstWord scope text => rfl
  | statement violation => cases violation <;> rfl

theorem atPosition_eq {diagnostic : Diagnostic} (hfile : diagnostic.file = []) {number : Nat}
    (hnumber : 0 < number) (file : Bytes) :
    diagnostic.atPosition number file = { diagnostic with line := number, file } := by
  rw [Diagnostic.atPosition, if_pos (Int.natCast_pos.mpr hnumber)]
  cases file with
  | nil => rw [hfile]; rfl
  | cons byte rest => rfl

/-- The report of an early stop at a line is the report of that line, and names its position. -/
theorem failure_stopCause {number : Nat} (h : 0 < number) (rules : ReadingRules)
    (text file : Bytes) :
    (Stop.mk number (readLine rules number text).stopCause).failure file =
        (readLine rules number text).stopReport file ∧
      ((readLine rules number text).stopReport file).IsAt number file := by
  have hnumber := number_readLine rules number text
  generalize readLine rules number text = reading at *
  obtain ⟨line, error⟩ := reading
  dsimp only at hnumber
  rw [LineReading.stopReport, LineReading.failure?, Stop.failure, LineReading.stopCause]
  cases error with
  | some error =>
    dsimp only [Option.map_some, Option.getD_some, Failure.atPosition]
    rw [hnumber, atPosition_eq (file_diagnostic error) h]
    exact ⟨rfl, _, rfl, rfl, rfl⟩
  | none =>
    dsimp only [Option.map_none, Option.getD_none, Failure.atPosition]
    rw [hnumber, atPosition_eq rfl h]
    exact ⟨rfl, _, rfl, rfl, rfl⟩

theorem failure_readFailed {number : Nat} (h : 0 < number) (message file : Bytes) :
    (Stop.mk number (.readFailed message)).failure file =
      .caused { category := .structural, message := utf8 "Read failed", line := number, file }
        (.plain message) := by
  rw [Stop.failure]
  dsimp only [Failure.atPosition]
  rw [atPosition_eq rfl h]

/-! ### Kept lines -/

/-- Kept lines come from readings without an error. -/
theorem exists_of_mem_acceptedLines {scope : Nat} {items : List LineReading} {line : Line}
    (h : line ∈ acceptedLines scope items) :
    ∃ reading ∈ items, reading.line = line ∧ reading.error = none := by
  induction items generalizing scope with
  | nil => cases h
  | cons reading rest ih =>
    rw [acceptedLines] at h
    split_ifs at h with hfits
    · rcases List.mem_cons.mp h with rfl | hrest
      · exact ⟨reading, List.mem_cons_self, rfl, hfits.1⟩
      · obtain ⟨found, hfound, hline⟩ := ih hrest
        exact ⟨found, List.mem_cons_of_mem reading hfound, hline⟩
    · cases h

theorem isPrefix_acceptedLines (scope : Nat) (items : List LineReading) :
    acceptedLines scope items <+: items.map (·.line) := by
  induction items generalizing scope with
  | nil => exact List.prefix_refl []
  | cons reading rest ih =>
    rw [acceptedLines]
    split_ifs
    · exact List.cons_prefix_cons.mpr ⟨rfl, ih _⟩
    · exact List.nil_prefix

theorem exists_of_mem_readings {rules : ReadingRules} {number : Nat} {texts : List Bytes}
    {reading : LineReading} (h : reading ∈ readings rules number texts) :
    ∃ own : Nat, number ≤ own ∧ ∃ text, reading = readLine rules own text := by
  obtain ⟨index, hindex⟩ := List.mem_iff_getElem?.mp h
  rw [getElem?_readings, Option.map_eq_some_iff] at hindex
  obtain ⟨text, -, hreading⟩ := hindex
  exact ⟨number + index, Nat.le_add_right number index, text, hreading.symm⟩

theorem pairwise_readings (rules : ReadingRules) (number : Nat) (texts : List Bytes) :
    (readings rules number texts).Pairwise fun first second ↦
      first.line.number < second.line.number := by
  induction texts generalizing number with
  | nil => exact .nil
  | cons text rest ih =>
    refine List.pairwise_cons.mpr ⟨?_, ih (number + 1)⟩
    intro later hlater
    obtain ⟨own, hown, found, rfl⟩ := exists_of_mem_readings hlater
    rw [number_readLine, number_readLine]
    exact Int.ofNat_lt.mpr hown

theorem isKept_of_mem_readSource {rules : ReadingRules} {stream : ByteStream} {line : Line}
    (h : line ∈ (readSource rules stream).lines) : line.IsKept := by
  rw [readSource, lines_readLines, List.mem_filter] at h
  obtain ⟨reading, hreading, rfl, herror⟩ := exists_of_mem_acceptedLines h.1
  obtain ⟨own, -, text, rfl⟩ := exists_of_mem_readings hreading
  exact isKept_readLine herror h.2

theorem pairwise_readSource (rules : ReadingRules) (stream : ByteStream) :
    (readSource rules stream).lines.Pairwise fun first second ↦ first.number < second.number := by
  rw [readSource, lines_readLines]
  have hlines : ((readings rules 1 stream.lines).map (·.line)).Pairwise
      fun first second ↦ first.number < second.number :=
    List.pairwise_map.mpr (pairwise_readings rules 1 stream.lines)
  exact (hlines.sublist (isPrefix_acceptedLines 0 _).sublist).filter _

/-! ### Sources -/

/-- Reading a source is reading its physical lines one by one. It stops at the first that blocks,
with the report of that line at its number, and keeps the lines with words before it. If none
blocks, it keeps all lines with words, and only a failing stream is reported, at the line after the
last that a newline ends. The kept lines may stand where they stand, and their numbers grow. -/
theorem readSource_linewise (rules : ReadingRules) (stream : ByteStream) :
    ∃ texts, (∀ others, stream.HasLines others ↔ others = texts) ∧
      ((∃ index reading, (readings rules 1 texts)[index]? = some reading ∧
          BlocksFirst 0 (readings rules 1 texts) index ∧
          (readSource rules stream).lines = keptLines ((readings rules 1 texts).take index) ∧
          (readSource rules stream).stop.map (·.failure rules.file) =
            some (reading.stopReport rules.file) ∧
          (reading.stopReport rules.file).IsAt (index + 1 : Nat) rules.file) ∨
        (∀ index, ¬ Blocks 0 (readings rules 1 texts) index) ∧
          (readSource rules stream).lines = keptLines (readings rules 1 texts) ∧
          (readSource rules stream).stop.map (·.failure rules.file) =
            stream.failure.map fun failure ↦
              .caused { category := .structural, message := utf8 "Read failed"
                        line := (stream.bytes.count 0x0A + 1 : Nat), file := rules.file }
                (.plain failure.message)) ∧
      (∀ line ∈ (readSource rules stream).lines, line.IsKept) ∧
      (readSource rules stream).lines.Pairwise fun first second ↦ first.number < second.number := by
  refine ⟨stream.lines, hasLines_iff stream, ?_, fun line ↦ isKept_of_mem_readSource,
    pairwise_readSource rules stream⟩
  rcases readLines_cases rules stream.failure 1 0 stream.lines with
    ⟨index, reading, hreading, hblocks, hsource⟩ | ⟨hnone, hsource⟩
  · refine Or.inl ⟨index, reading, hreading, hblocks, ?_⟩
    have hfound := hreading
    rw [getElem?_readings, Option.map_eq_some_iff] at hfound
    obtain ⟨text, -, rfl⟩ := hfound
    obtain ⟨hreport, hposition⟩ := failure_stopCause (Nat.succ_pos index) rules text rules.file
    rw [Nat.add_comm 1 index] at *
    rw [readSource, hsource]
    exact ⟨rfl, congrArg some hreport, hposition⟩
  · refine Or.inr ⟨hnone, ?_⟩
    rw [readSource, hsource]
    refine ⟨rfl, ?_⟩
    cases hfailure : stream.failure with
    | none => rfl
    | some failure =>
      have hlength : stream.lines.length = stream.bytes.count 0x0A :=
        length_lines_of_failure (by rw [hfailure]; exact Option.some_ne_none failure)
      rw [Option.map_some, Option.map_some, Option.map_some, hlength, Nat.add_comm 1,
        failure_readFailed (Nat.succ_pos _)]

/-- The unfinished line of a failing stream is not read. -/
example :
    readSource {}
      { bytes := utf8 "init\r\n\n\tbreak\n\t\t?", failure := some { message := utf8 "lost" } } =
    ⟨[⟨0, 1, [⟨.name, utf8 "init"⟩]⟩, ⟨1, 3, [⟨.name, utf8 "break"⟩]⟩],
      some ⟨4, .readFailed (utf8 "lost")⟩⟩ := by
  decide +kernel

end LineScript
