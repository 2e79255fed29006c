import LineScript.Proofs.Source.Linewise
import LineScript.Proofs.Word.OnePass

/-!
Blank lines in a source. A blank line put between two lines has no words, so nothing more is kept,
and the lines below it move down by one. But it has scope zero, and the line after it is measured
against that. So a source that is read to its end is still read to its end with the blank line only
if the physical line after it has scope zero or one. Otherwise reading stops there, since that line
is too deep, although no kept line stands between it and the line it was nested in.
-/

set_option autoImplicit false
set_option relaxedAutoImplicit false

namespace LineScript

open Bytes

/-! ### Places between lines -/

/-- Bytes after which a line starts: there are none, or the last one is a newline. -/
def EndsLine (bytes : Bytes) : Prop :=
  ∀ last ∈ bytes.getLast?, last = 0x0A

theorem endsLine_of_getLast? {bytes : Bytes} (h : bytes.getLast? = some 0x0A) : EndsLine bytes := by
  intro last hlast
  exact Option.some.inj (hlast.symm.trans h)

theorem IsCut.append {before after tail : Bytes} {ended more : List Bytes}
    (hbefore : IsCut before ended []) (hafter : IsCut after more tail) :
    IsCut (before ++ after) (ended ++ more) tail where
  bytes_eq := by
    rw [hbefore.bytes_eq, hafter.bytes_eq, List.append_nil, List.flatMap_append, List.append_assoc]
  ended := List.forall_mem_append.mpr ⟨hbefore.ended, hafter.ended⟩
  tail := hafter.tail

/-- Nothing follows the last newline of bytes that end a line. -/
theorem EndsLine.isCut {bytes : Bytes} (h : EndsLine bytes) :
    IsCut bytes (cutLines bytes).1 [] := by
  have hcut := isCut_cutLines bytes
  have htail : (cutLines bytes).2 = [] := by
    by_contra hne
    have hlast : bytes.getLast? = some ((cutLines bytes).2.getLast hne) := by
      conv_lhs => rw [hcut.bytes_eq, List.getLast?_append, List.getLast?_eq_some_getLast hne]
      rfl
    apply hcut.tail
    rw [← h _ hlast]
    exact List.getLast_mem hne
  rwa [htail] at hcut

/-- A stream that is parted between two lines has the lines of both parts. -/
theorem lines_append {before : Bytes} (h : EndsLine before) (after : Bytes)
    (failure : Option StreamFailure) :
    (ByteStream.mk (before ++ after) failure).lines =
      (cutLines before).1.map withoutReturn ++ (ByteStream.mk after failure).lines := by
  have hcut := (h.isCut.append (isCut_cutLines after)).cutLines_eq
  simp only [ByteStream.lines, hcut, List.append_assoc, List.map_append]

theorem lines_newline_cons (after : Bytes) (failure : Option StreamFailure) :
    (ByteStream.mk (0x0A :: after) failure).lines = [] :: (ByteStream.mk after failure).lines := by
  have hends : EndsLine [0x0A] := endsLine_of_getLast? rfl
  exact lines_append hends after failure

/-! ### Numbers -/

/-- The line one further down. -/
def Line.movedDown (line : Line) : Line :=
  { line with number := line.number + 1 }

/-- The line, one further down if it stands below the line of the given number. -/
def Line.movedBelow (number : Nat) (line : Line) : Line :=
  if number < line.number then line.movedDown else line

/-- The number of a line does not decide how it is read. -/
theorem readLine_succ (rules : ReadingRules) (number : Nat) (text : Bytes) :
    readLine rules (number + 1 : Nat) text =
      ⟨(readLine rules number text).line.movedDown, (readLine rules number text).error⟩ := by
  unfold readLine
  dsimp only
  split
  · rfl
  · split
    · rfl
    · split_ifs
      · rfl
      · split
        · rfl
        · rfl
      · rfl

theorem scope_readLine (rules : ReadingRules) (number : Nat) (text : Bytes) :
    (readLine rules number text).line.scope = (readLine rules 0 text).line.scope := by
  induction number with
  | zero => rfl
  | succ number ih =>
    rw [readLine_succ]
    exact ih

/-- The source with all of its lines one further down. -/
def Source.movedDown (source : Source) : Source :=
  ⟨source.lines.map Line.movedDown,
    source.stop.map fun stop ↦ { stop with number := stop.number + 1 }⟩

theorem Source.movedDown_cons (line : Line) (source : Source) :
    (source.cons line).movedDown = source.movedDown.cons line.movedDown := by
  unfold Source.cons Line.movedDown
  dsimp only
  split_ifs
  · rfl
  · rfl

theorem readLines_succ (rules : ReadingRules) (failure : Option StreamFailure) (number scope : Nat)
    (texts : List Bytes) :
    readLines rules failure (number + 1) scope texts =
      (readLines rules failure number scope texts).movedDown := by
  induction texts generalizing number scope with
  | nil => cases failure <;> rfl
  | cons text rest ih =>
    have hreading := readLine_succ rules number text
    have herror := congrArg LineReading.error hreading
    have hscope : (readLine rules (number + 1 : Nat) text).line.scope =
        (readLine rules number text).line.scope :=
      congrArg (fun reading ↦ reading.line.scope) hreading
    cases hown : (readLine rules number text).error with
    | some error =>
      rw [readLines_cons_of_error hown, readLines_cons_of_error (herror.trans hown)]
      rfl
    | none =>
      by_cases hdeep : scope + 1 < (readLine rules number text).line.scope
      · rw [readLines_cons_of_deep hown hdeep,
          readLines_cons_of_deep (herror.trans hown) (hscope ▸ hdeep), hscope]
        rfl
      · have hfits := Nat.not_lt.mp hdeep
        rw [readLines_cons_of_fits hown hfits,
          readLines_cons_of_fits (herror.trans hown) (hscope ▸ hfits), hreading, ih,
          Source.movedDown_cons]
        rfl

/-- Kept lines are numbered from the first one on. -/
theorem le_number_of_mem_readLines {rules : ReadingRules} {failure : Option StreamFailure}
    {number scope : Nat} {texts : List Bytes} {line : Line}
    (h : line ∈ (readLines rules failure number scope texts).lines) :
    (number : Int) ≤ line.number := by
  rw [lines_readLines, List.mem_filter] at h
  obtain ⟨reading, hreading, rfl, -⟩ := exists_of_mem_acceptedLines h.1
  obtain ⟨own, hown, text, rfl⟩ := exists_of_mem_readings hreading
  rw [number_readLine]
  exact Int.ofNat_le.mpr hown

/-- Of lines above and below a number, those below it are moved. -/
theorem map_movedBelow {number : Nat} {above below : List Line}
    (habove : ∀ line ∈ above, line.number ≤ number)
    (hbelow : ∀ line ∈ below, number < line.number) :
    (above ++ below).map (Line.movedBelow number) = above ++ below.map Line.movedDown := by
  rw [List.map_append]
  congr 1
  · refine (List.map_congr_left fun line hline ↦ ?_).trans (List.map_id above)
    exact if_neg (Int.not_lt.mpr (habove line hline))
  · exact List.map_congr_left fun line hline ↦ if_pos (hbelow line hline)

theorem filter_number_le {number : Nat} {above below : List Line}
    (habove : ∀ line ∈ above, line.number ≤ number)
    (hbelow : ∀ line ∈ below, number < line.number) :
    (above ++ below).filter (·.number ≤ (number : Int)) = above := by
  have hnone : below.filter (·.number ≤ (number : Int)) = [] := by
    refine List.filter_eq_nil_iff.mpr fun line hline ↦ ?_
    rw [decide_eq_true_eq]
    exact Int.not_le.mpr (hbelow line hline)
  rw [List.filter_append, hnone, List.append_nil]
  exact List.filter_eq_self.mpr fun line hline ↦ decide_eq_true (habove line hline)

/-! ### Blank lines -/

/-- The scope of the first physical line, or zero if there is none. -/
def firstScope (rules : ReadingRules) : List Bytes → Nat
  | [] => 0
  | text :: _ => (readLine rules 0 text).line.scope

/-- Lines that reading gets past leave their kept lines and a scope to what follows them, whatever
it is. -/
theorem exists_readLines_append {rules : ReadingRules} {failure : Option StreamFailure}
    {number scope : Nat} {first second : List Bytes}
    (h : (readLines rules failure number scope (first ++ second)).stop = none) :
    ∃ (kept : List Line) (last : Nat),
      (∀ line ∈ kept, line.number < ((number + first.length : Nat) : Int)) ∧ ∀ rest,
      readLines rules failure number scope (first ++ rest) =
        ⟨kept ++ (readLines rules failure (number + first.length) last rest).lines,
          (readLines rules failure (number + first.length) last rest).stop⟩ := by
  induction first generalizing number scope with
  | nil => exact ⟨[], scope, List.forall_mem_nil _, fun rest ↦ rfl⟩
  | cons text first ih =>
    rw [List.cons_append] at h
    obtain ⟨herror, hfits⟩ := fits_of_stop_eq_none h
    have hstep := @readLines_cons_of_fits rules failure number scope text herror hfits
    rw [hstep, source_cons_eq] at h
    obtain ⟨kept, last, hkept, hrest⟩ := ih h
    have hlength : number + 1 + first.length = number + (text :: first).length := by
      rw [List.length_cons]
      omega
    rw [hlength] at hkept hrest
    refine ⟨[(readLine rules number text).line].filter Line.hasWords ++ kept, last, ?_, ?_⟩
    · refine List.forall_mem_append.mpr ⟨fun line hline ↦ ?_, hkept⟩
      obtain rfl := List.mem_singleton.mp (List.mem_filter.mp hline).1
      rw [number_readLine, List.length_cons]
      omega
    · intro rest
      rw [List.cons_append, hstep, hrest, source_cons_eq, List.append_assoc]

/-- A blank line is not kept, and the line after it is measured against scope zero. -/
theorem readLines_blank_cons (rules : ReadingRules) (failure : Option StreamFailure)
    (number scope : Nat) (rest : List Bytes) :
    readLines rules failure number scope ([] :: rest) =
      readLines rules failure (number + 1) 0 rest := by
  have hreading : readLine rules number [] = ⟨⟨0, number, []⟩, none⟩ := by
    simp [readLine, tokenize_nil]
  rw [readLines, hreading]
  rfl

/-- Lines that reading gets past after a line of some scope are read in the same way after a line of
scope zero, unless the first of them is too deep there. -/
theorem readLines_zero {rules : ReadingRules} {failure : Option StreamFailure} {number scope : Nat}
    {texts : List Bytes} (h : (readLines rules failure number scope texts).stop = none) :
    readLines rules failure number 0 texts =
      if firstScope rules texts ≤ 1 then readLines rules failure number scope texts
      else ⟨[], some ⟨number, .tooDeep (firstScope rules texts)⟩⟩ := by
  cases texts with
  | nil => rfl
  | cons text rest =>
    obtain ⟨herror, hfits⟩ := fits_of_stop_eq_none h
    rw [firstScope, ← scope_readLine rules number text]
    split_ifs with hshallow
    · rw [readLines_cons_of_fits herror hshallow, readLines_cons_of_fits herror hfits]
    · exact readLines_cons_of_deep herror (Nat.not_le.mp hshallow) rest

/-- A blank line put between two lines of a source that is read to its end moves the lines below it
down by one, if the line after it has scope zero or one. A deeper line is too deep there: reading
stops at it, and keeps only what stands above the blank line. -/
theorem readSource_insert_newline (rules : ReadingRules) {before after : Bytes}
    (hends : EndsLine before)
    (haccepted : (readSource rules { bytes := before ++ after }).stop = none) :
    readSource rules { bytes := before ++ 0x0A :: after } =
      if firstScope rules (ByteStream.lines { bytes := after }) ≤ 1 then
        ⟨(readSource rules { bytes := before ++ after }).lines.map
          (Line.movedBelow (before.count 0x0A)), none⟩
      else
        ⟨(readSource rules { bytes := before ++ after }).lines.filter
            (·.number ≤ (before.count 0x0A : Nat)),
          some ⟨before.count 0x0A + 2,
            .tooDeep (firstScope rules (ByteStream.lines { bytes := after }))⟩⟩ := by
  have hcount : before.count 0x0A = ((cutLines before).1.map withoutReturn).length := by
    rw [List.length_map]
    exact hends.isCut.count_newline
  have hnew : ByteStream.lines { bytes := before ++ 0x0A :: after } =
      (cutLines before).1.map withoutReturn ++ [] :: ByteStream.lines { bytes := after } := by
    rw [lines_append hends, lines_newline_cons]
  unfold readSource at haccepted ⊢
  rw [hnew]
  rw [lines_append hends] at haccepted ⊢
  rw [hcount]
  generalize (cutLines before).1.map withoutReturn = above at *
  generalize ByteStream.lines { bytes := after } = below at *
  obtain ⟨kept, last, hkept, hread⟩ := exists_readLines_append haccepted
  rw [hread] at haccepted ⊢
  have habove : ∀ line ∈ kept, line.number ≤ above.length := by
    intro line hline
    have hlt := hkept line hline
    omega
  have hbelow : ∀ line ∈ (readLines rules none (1 + above.length) last below).lines,
      above.length < line.number := by
    intro line hline
    have hle := le_number_of_mem_readLines hline
    omega
  rw [hread, readLines_blank_cons, readLines_succ, readLines_zero haccepted,
    map_movedBelow habove hbelow, filter_number_le habove hbelow]
  split_ifs
  · have hstop : (readLines rules none (1 + above.length) last below).stop = none := haccepted
    rw [Source.movedDown, hstop]
    rfl
  · rw [Source.movedDown, List.map_nil, List.append_nil, Nat.add_comm 1 above.length]
    rfl

/-- A block in a block, with a line that ends in a carriage return and is not kept. -/
def nestedSource : Bytes × Bytes :=
  (utf8 "init\n\tif 1\r\n", utf8 "\t; once\r\n\t\tbreak\n")

/-- A blank line before a comment that is nested once. -/
theorem readSource_insert_newline_nestedSource :
    (EndsLine nestedSource.1 ∧
      (readSource {} { bytes := nestedSource.1 ++ nestedSource.2 }).stop = none) ∧
    readSource {} { bytes := nestedSource.1 ++ 0x0A :: nestedSource.2 } =
      ⟨[⟨0, 1, [⟨.name, utf8 "init"⟩]⟩, ⟨1, 2, [⟨.name, utf8 "if"⟩, ⟨.numeric, utf8 "1"⟩]⟩,
        ⟨2, 5, [⟨.name, utf8 "break"⟩]⟩], none⟩ := by
  have hends : EndsLine nestedSource.1 := endsLine_of_getLast? (by decide +kernel)
  have haccepted : (readSource {} { bytes := nestedSource.1 ++ nestedSource.2 }).stop = none := by
    decide +kernel
  refine ⟨⟨hends, haccepted⟩, ?_⟩
  rw [readSource_insert_newline {} hends haccepted]
  decide +kernel

/-- A blank line before a line of scope two. -/
theorem stop_readSource_insert_newline :
    EndsLine (utf8 "init\n\tif 1\n") ∧
      (readSource {} { bytes := utf8 "init\n\tif 1\n" ++ utf8 "\t\tbreak\n" }).stop = none ∧
      (readSource {} { bytes := utf8 "init\n\tif 1\n" ++ 0x0A :: utf8 "\t\tbreak\n" }).stop =
        some ⟨4, .tooDeep 2⟩ :=
  ⟨endsLine_of_getLast? (by decide +kernel), by decide +kernel, by decide +kernel⟩

end LineScript
