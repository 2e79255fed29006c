import LineScript.Text.Blank
import Mathlib.Tactic.SplitIfs

/-!
The pieces of a byte string and its fields. The pieces lose no byte, so a field is a part of the
string it was cut from. An ASCII byte is always a piece of its own and no sequence reaches across
it, whether what stands before it is well-formed or not. Names joined by spaces therefore fall
apart into the same names again.
-/

set_option autoImplicit false
set_option relaxedAutoImplicit false

namespace LineScript.Text

open Bytes

theorem toNat_ofNat_ascii {byte : UInt8} (h : byte < 0x80) :
    (Char.ofNat byte.toNat).toNat = byte.toNat := by
  have hrange : byte.toNat < 0x80 := UInt8.lt_iff_toNat_lt.mp h
  rw [Char.ofNat, dif_pos (Or.inl (by omega))]
  rfl

theorem scalar?_eq_some {least codePoint : Nat} {char : Char}
    (h : scalar? least codePoint = some char) : least ≤ codePoint ∧ char.toNat = codePoint := by
  unfold scalar? at h
  split_ifs at h with hscalar
  refine ⟨hscalar.1, ?_⟩
  rw [← Option.some.inj h, Char.ofNat, dif_pos hscalar.2]
  rfl

/-- The forms of a well-formed sequence: the bytes it consists of and its code point. -/
theorem first?_eq_some_cases {bytes rest : Bytes} {char : Char}
    (h : first? bytes = some (char, rest)) :
    (∃ lead, bytes = lead :: rest ∧ lead.toNat < 0x80 ∧ char.toNat = lead.toNat) ∨
    (∃ lead a, bytes = lead :: a :: rest ∧ 0xC0 ≤ lead.toNat ∧ lead.toNat < 0xE0 ∧
      isContinuation a = true ∧ 0x80 ≤ char.toNat ∧
      char.toNat = lead.toNat % 32 * 64 + payload a) ∨
    (∃ lead a b, bytes = lead :: a :: b :: rest ∧ 0xE0 ≤ lead.toNat ∧ lead.toNat < 0xF0 ∧
      isContinuation a = true ∧ isContinuation b = true ∧ 0x800 ≤ char.toNat ∧
      char.toNat = (lead.toNat % 16 * 64 + payload a) * 64 + payload b) ∨
    (∃ lead a b c, bytes = lead :: a :: b :: c :: rest ∧ 0xF0 ≤ lead.toNat ∧
      lead.toNat < 0xF8 ∧ isContinuation a = true ∧ isContinuation b = true ∧
      isContinuation c = true ∧ 0x10000 ≤ char.toNat ∧
      char.toNat = ((lead.toNat % 8 * 64 + payload a) * 64 + payload b) * 64 + payload c) := by
  cases bytes with
  | nil => cases h
  | cons lead tail =>
    simp only [first?, UInt8.lt_iff_toNat_lt, UInt8.reduceToNat] at h
    split_ifs at h with hascii hstray htwo hthree hfour
    · obtain ⟨rfl, rfl⟩ := Prod.mk.inj (Option.some.inj h)
      exact Or.inl ⟨lead, rfl, hascii, toNat_ofNat_ascii (UInt8.lt_iff_toNat_lt.mpr hascii)⟩
    · rcases tail with _ | ⟨a, tail⟩
      · cases h
      · simp only [] at h
        split_ifs at h with ha
        obtain ⟨found, hfound, hpair⟩ := Option.map_eq_some_iff.mp h
        obtain ⟨rfl, rfl⟩ := Prod.mk.inj hpair
        obtain ⟨hleast, hcode⟩ := scalar?_eq_some hfound
        exact Or.inr (Or.inl ⟨lead, a, rfl, by omega, htwo, ha, by omega, hcode⟩)
    · rcases tail with _ | ⟨a, _ | ⟨b, tail⟩⟩
      · cases h
      · cases h
      · simp only [Bool.and_eq_true] at h
        split_ifs at h with hab
        obtain ⟨found, hfound, hpair⟩ := Option.map_eq_some_iff.mp h
        obtain ⟨rfl, rfl⟩ := Prod.mk.inj hpair
        obtain ⟨hleast, hcode⟩ := scalar?_eq_some hfound
        exact Or.inr (Or.inr (Or.inl
          ⟨lead, a, b, rfl, by omega, hthree, hab.1, hab.2, by omega, hcode⟩))
    · rcases tail with _ | ⟨a, _ | ⟨b, _ | ⟨c, tail⟩⟩⟩
      · cases h
      · cases h
      · cases h
      · simp only [Bool.and_eq_true] at h
        split_ifs at h with habc
        obtain ⟨found, hfound, hpair⟩ := Option.map_eq_some_iff.mp h
        obtain ⟨rfl, rfl⟩ := Prod.mk.inj hpair
        obtain ⟨hleast, hcode⟩ := scalar?_eq_some hfound
        exact Or.inr (Or.inr (Or.inr ⟨lead, a, b, c, rfl, by omega, hfour, habc.1.1, habc.1.2,
          habc.2, by omega, hcode⟩))

theorem isContinuation_iff (byte : UInt8) :
    isContinuation byte = true ↔ 0x80 ≤ byte.toNat ∧ byte.toNat ≤ 0xBF := by
  simp [isContinuation, UInt8.le_iff_toNat_le]

/-- A byte is known by its number. -/
theorem ofNat_eq_of_toNat (byte : UInt8) {n : Nat} (h : n = byte.toNat) : UInt8.ofNat n = byte := by
  rw [h, UInt8.ofNat_toNat]

/-- A well-formed sequence is the encoding of its character. -/
theorem eq_encode_append_of_first? {bytes rest : Bytes} {char : Char}
    (h : first? bytes = some (char, rest)) : bytes = String.utf8EncodeChar char ++ rest := by
  have hval : char.val.toNat = char.toNat := rfl
  obtain ⟨lead, rfl, hlead, hcode⟩ | ⟨lead, a, rfl, hlow, hhigh, ha, hleast, hcode⟩ |
    ⟨lead, a, b, rfl, hlow, hhigh, ha, hb, hleast, hcode⟩ |
    ⟨lead, a, b, c, rfl, hlow, hhigh, ha, hb, hc, hleast, hcode⟩ := first?_eq_some_cases h
  · rw [String.utf8EncodeChar, hval, if_pos (by omega), ofNat_eq_of_toNat lead hcode]
    rfl
  · rw [isContinuation_iff] at ha
    simp only [payload] at hcode
    rw [String.utf8EncodeChar, hval, if_neg (by omega), if_pos (by omega),
      ofNat_eq_of_toNat lead (by omega), ofNat_eq_of_toNat a (by omega)]
    rfl
  · rw [isContinuation_iff] at ha hb
    simp only [payload] at hcode
    rw [String.utf8EncodeChar, hval, if_neg (by omega), if_neg (by omega), if_pos (by omega),
      ofNat_eq_of_toNat lead (by omega), ofNat_eq_of_toNat a (by omega),
      ofNat_eq_of_toNat b (by omega)]
    rfl
  · rw [isContinuation_iff] at ha hb hc
    simp only [payload] at hcode
    rw [String.utf8EncodeChar, hval, if_neg (by omega), if_neg (by omega), if_neg (by omega),
      ofNat_eq_of_toNat lead (by omega), ofNat_eq_of_toNat a (by omega),
      ofNat_eq_of_toNat b (by omega), ofNat_eq_of_toNat c (by omega)]
    rfl

/-- The bytes of all pieces are the bytes of the string. -/
theorem flatMap_bytes_pieces (bytes : Bytes) : (pieces bytes).flatMap Piece.bytes = bytes := by
  fun_induction pieces bytes with
  | case1 => rfl
  | case2 byte rest char after hfirst ih =>
    rw [List.flatMap_cons, ih]
    exact (eq_encode_append_of_first? hfirst).symm
  | case3 byte rest hfirst ih =>
    rw [List.flatMap_cons, ih]
    rfl

/-! ### Cutting at an ASCII byte -/

/-- No sequence reaches across a byte that continues none. -/
theorem first?_append {separator : UInt8} (hseparator : isContinuation separator = false)
    (lead : UInt8) (tail rest : Bytes) :
    first? (lead :: tail ++ separator :: rest) =
      (first? (lead :: tail)).map fun found ↦ (found.1, found.2 ++ separator :: rest) := by
  rw [List.cons_append]
  unfold first?
  simp only []
  split_ifs with hascii hstray htwo hthree hfour
  · rfl
  · rfl
  · rcases tail with _ | ⟨a, tail⟩
    · simp [hseparator]
    · by_cases ha : isContinuation a = true <;> simp [ha, Function.comp_def]
  · rcases tail with _ | ⟨a, _ | ⟨b, tail⟩⟩
    · cases rest <;> simp [hseparator]
    · simp [hseparator]
    · by_cases hab : (isContinuation a && isContinuation b) = true <;>
        simp [hab, Function.comp_def]
  · rcases tail with _ | ⟨a, _ | ⟨b, _ | ⟨c, tail⟩⟩⟩
    · rcases rest with _ | ⟨_, _ | _⟩ <;> simp [hseparator]
    · cases rest <;> simp [hseparator]
    · simp [hseparator]
    · by_cases habc : (isContinuation a && isContinuation b && isContinuation c) = true <;>
        simp [habc, Function.comp_def]
  · rfl

theorem pieces_cons_of_first? {byte : UInt8} {rest after : Bytes} {char : Char}
    (h : first? (byte :: rest) = some (char, after)) :
    pieces (byte :: rest) = .character char :: pieces after := by
  rw [pieces]
  split
  · rename_i found after' hfound
    rw [h] at hfound
    obtain ⟨rfl, rfl⟩ := Prod.mk.inj (Option.some.inj hfound)
    rfl
  · rename_i hnone
    rw [h] at hnone
    cases hnone

theorem pieces_cons_of_stray {byte : UInt8} {rest : Bytes} (h : first? (byte :: rest) = none) :
    pieces (byte :: rest) = .stray byte :: pieces rest := by
  rw [pieces]
  split
  · rename_i hfound
    rw [h] at hfound
    cases hfound
  · rfl

/-- An ASCII byte is a piece of its own. -/
theorem pieces_ascii {byte : UInt8} (h : byte < 0x80) (rest : Bytes) :
    pieces (byte :: rest) = .character (Char.ofNat byte.toNat) :: pieces rest :=
  pieces_cons_of_first? (by simp [first?, h])

theorem isContinuation_of_ascii {byte : UInt8} (h : byte < 0x80) : isContinuation byte = false := by
  rw [UInt8.lt_iff_toNat_lt] at h
  rw [Bool.eq_false_iff, ne_eq, isContinuation_iff]
  exact fun hrange ↦ absurd h (Nat.not_lt.mpr hrange.1)

/-- The pieces before a byte that continues no sequence are the same with it and without it. -/
theorem pieces_append_of_not_continuation {separator : UInt8}
    (hseparator : isContinuation separator = false) (bytes rest : Bytes) :
    pieces (bytes ++ separator :: rest) = pieces bytes ++ pieces (separator :: rest) := by
  have happend := first?_append hseparator
  fun_induction pieces bytes with
  | case1 => rfl
  | case2 byte tail char after hfirst ih =>
    have hwhole := happend byte tail rest
    rw [hfirst, List.cons_append] at hwhole
    rw [List.cons_append, pieces_cons_of_first? hwhole, ih, List.cons_append]
  | case3 byte tail hfirst ih =>
    have hwhole := happend byte tail rest
    rw [hfirst, List.cons_append] at hwhole
    rw [List.cons_append, pieces_cons_of_stray hwhole, ih, List.cons_append]

theorem pieces_append {separator : UInt8} (hseparator : separator < 0x80) (bytes rest : Bytes) :
    pieces (bytes ++ separator :: rest) = pieces bytes ++ pieces (separator :: rest) :=
  pieces_append_of_not_continuation (isContinuation_of_ascii hseparator) bytes rest

/-! ### Names and fields -/

theorem isName_iff (bytes : Bytes) :
    isName bytes = true ↔ bytes ≠ [] ∧ ∀ piece ∈ pieces bytes, piece.isBlank = false := by
  simp [isName, hasBlank]

/-- A string of ASCII bytes that are no white space is a name. -/
theorem isName_of_ascii {bytes : Bytes} (hne : bytes ≠ [])
    (hbytes : ∀ byte ∈ bytes, 0x21 ≤ byte.toNat ∧ byte.toNat ≤ 0x7E) : isName bytes = true := by
  rw [isName_iff]
  refine ⟨hne, ?_⟩
  clear hne
  induction bytes with
  | nil => simp [pieces]
  | cons byte rest ih =>
    intro piece hpiece
    have hbyte := hbytes byte List.mem_cons_self
    have hascii : byte < 0x80 := UInt8.lt_iff_toNat_lt.mpr (Nat.lt_of_le_of_lt hbyte.2 (by decide))
    rw [pieces_ascii hascii, List.mem_cons] at hpiece
    rcases hpiece with rfl | hpiece
    · simp only [Piece.isBlank, isBlank, toNat_ofNat_ascii hascii, Bool.or_eq_false_iff,
        Bool.and_eq_false_iff, decide_eq_false_iff_not, beq_eq_false_iff_ne]
      omega
    · exact ih (fun other hother ↦ hbytes other (List.mem_cons_of_mem _ hother)) piece hpiece

/-- White space in ASCII does not occur in a name. -/
theorem notMem_of_isName {bytes : Bytes} (h : isName bytes = true) {byte : UInt8}
    (hascii : byte < 0x80) (hblank : isBlank (Char.ofNat byte.toNat) = true) : byte ∉ bytes := by
  intro hmem
  obtain ⟨before, after, rfl⟩ := List.append_of_mem hmem
  have hpieces := ((isName_iff _).mp h).2 (.character (Char.ofNat byte.toNat)) (by
    rw [pieces_append hascii, pieces_ascii hascii]
    simp)
  rw [Piece.isBlank, hblank] at hpieces
  cases hpieces

theorem newline_notMem_of_isName {bytes : Bytes} (h : isName bytes = true) : 0x0A ∉ bytes :=
  notMem_of_isName h (by decide) (by decide)

/-- Pieces without white space join the field being read. -/
theorem fieldsFrom_append (field : Bytes) {first : List Piece}
    (hfirst : ∀ piece ∈ first, piece.isBlank = false) (second : List Piece) :
    fieldsFrom field (first ++ second) =
      fieldsFrom (field ++ first.flatMap Piece.bytes) second := by
  induction first generalizing field with
  | nil => simp
  | cons piece first ih =>
    have hpiece := hfirst piece List.mem_cons_self
    rw [List.cons_append, fieldsFrom, hpiece, if_neg (by simp),
      ih _ fun other hother ↦ hfirst other (List.mem_cons_of_mem _ hother)]
    simp [List.append_assoc]

theorem fields_name {name : Bytes} (h : isName name = true) : fields name = [name] := by
  obtain ⟨hne, hpieces⟩ := (isName_iff name).mp h
  have hfields := fieldsFrom_append [] hpieces []
  rw [List.append_nil, flatMap_bytes_pieces, List.nil_append] at hfields
  rw [fields, hfields, fieldsFrom, if_neg (by simpa using hne)]

/-- The first field of a string that starts with a name and a space is that name. -/
theorem fields_name_append {name : Bytes} (h : isName name = true) (rest : Bytes) :
    fields (name ++ 0x20 :: rest) = name :: fields rest := by
  obtain ⟨hne, hpieces⟩ := (isName_iff name).mp h
  have hspace : (Piece.character (Char.ofNat (0x20 : UInt8).toNat)).isBlank = true := by decide
  rw [fields, pieces_append (by decide), fieldsFrom_append [] hpieces, flatMap_bytes_pieces,
    pieces_ascii (by decide), List.nil_append, fieldsFrom, if_pos hspace,
    if_neg (by simpa using hne)]
  rfl

theorem joined_cons_cons (separator first next : Bytes) (rest : List Bytes) :
    joined separator (first :: next :: rest) =
      first ++ separator ++ joined separator (next :: rest) := by
  rw [joined]
  simp

/-- Names with spaces between them are the fields of the string they form. -/
theorem fields_joined {names : List Bytes} (h : ∀ name ∈ names, isName name = true) :
    fields (joined [0x20] names) = names := by
  induction names with
  | nil => simp [joined, fields, pieces, fieldsFrom]
  | cons name rest ih =>
    have hname := h name List.mem_cons_self
    cases rest with
    | nil => exact fields_name hname
    | cons next rest =>
      rw [joined_cons_cons, List.append_assoc, List.singleton_append, fields_name_append hname,
        ih fun other hother ↦ h other (List.mem_cons_of_mem _ hother)]

/-! ### Fields of any string -/

/-- The pieces of what follows some pieces are those that follow them. -/
theorem pieces_flatMap_of_append {bytes : Bytes} {first second : List Piece}
    (h : pieces bytes = first ++ second) : pieces (second.flatMap Piece.bytes) = second := by
  induction first generalizing bytes with
  | nil =>
    rw [List.nil_append] at h
    rw [← h, flatMap_bytes_pieces]
  | cons piece first ih =>
    cases bytes with
    | nil => simp [pieces] at h
    | cons byte tail =>
      cases hfirst : first? (byte :: tail) with
      | some found =>
        rw [pieces_cons_of_first? hfirst] at h
        exact ih (List.cons.inj h).2
      | none =>
        rw [pieces_cons_of_stray hfirst] at h
        exact ih (List.cons.inj h).2

/-- The first byte of a character continues no sequence. -/
theorem exists_encode_cons (char : Char) :
    ∃ lead tail, String.utf8EncodeChar char = lead :: tail ∧ isContinuation lead = false := by
  have hval : char.val.toNat < 0x110000 := by
    rcases char.valid with h | h <;> omega
  unfold String.utf8EncodeChar
  dsimp only
  split_ifs
  all_goals
    refine ⟨_, _, rfl, ?_⟩
    rw [Bool.eq_false_iff, ne_eq, isContinuation_iff, UInt8.toNat_ofNat']
    omega

/-- White space ends a run of pieces, so the run has the same pieces on its own. -/
theorem pieces_flatMap_of_blank {bytes : Bytes} {run rest : List Piece} {piece : Piece}
    (h : pieces bytes = run ++ piece :: rest) (hblank : piece.isBlank = true) :
    pieces (run.flatMap Piece.bytes) = run := by
  cases piece with
  | stray byte => cases hblank
  | character char =>
    obtain ⟨lead, tail, hencode, hlead⟩ := exists_encode_cons char
    have hbytes : bytes =
        run.flatMap Piece.bytes ++ lead :: (tail ++ rest.flatMap Piece.bytes) := by
      rw [← flatMap_bytes_pieces bytes, h, List.flatMap_append, List.flatMap_cons, Piece.bytes,
        hencode, List.cons_append]
    have hsuffix : pieces (lead :: (tail ++ rest.flatMap Piece.bytes)) =
        .character char :: rest := by
      have hpieces := pieces_flatMap_of_append h
      rw [List.flatMap_cons, Piece.bytes, hencode, List.cons_append] at hpieces
      exact hpieces
    have happend := pieces_append_of_not_continuation hlead (run.flatMap Piece.bytes)
      (tail ++ rest.flatMap Piece.bytes)
    rw [← hbytes, h, hsuffix] at happend
    exact (List.append_cancel_right happend).symm

theorem isName_flatMap {run : List Piece} (hrun : ∀ piece ∈ run, piece.isBlank = false)
    (hpieces : pieces (run.flatMap Piece.bytes) = run) (hne : run.flatMap Piece.bytes ≠ []) :
    isName (run.flatMap Piece.bytes) = true := by
  rw [isName_iff, hpieces]
  exact ⟨hne, hrun⟩

/-- The fields that are still to come, after a run without white space, are names. -/
theorem isName_of_mem_fieldsFrom {bytes name : Bytes} {run rest : List Piece}
    (hpieces : pieces bytes = run ++ rest) (hrun : ∀ piece ∈ run, piece.isBlank = false)
    (h : name ∈ fieldsFrom (run.flatMap Piece.bytes) rest) : isName name = true := by
  induction rest generalizing bytes run with
  | nil =>
    rw [List.append_nil] at hpieces
    rw [fieldsFrom] at h
    split_ifs at h with hempty
    · cases h
    · rw [List.mem_singleton.mp h]
      refine isName_flatMap hrun ?_ (by simpa using hempty)
      rw [← hpieces, flatMap_bytes_pieces]
  | cons piece rest ih =>
    have hsplit : pieces bytes = (run ++ [piece]) ++ rest := by simpa using hpieces
    have hrest : pieces (rest.flatMap Piece.bytes) = [] ++ rest := pieces_flatMap_of_append hsplit
    rw [fieldsFrom] at h
    split_ifs at h with hblank hempty
    · exact ih hrest (by simp) h
    · rcases List.mem_cons.mp h with rfl | h
      · exact isName_flatMap hrun (pieces_flatMap_of_blank hpieces hblank) (by simpa using hempty)
      · exact ih hrest (by simp) h
    · refine ih hsplit ?_ (by simpa using h)
      simpa [or_imp, forall_and] using ⟨hrun, Bool.eq_false_iff.mpr hblank⟩

/-- Every field is a name, also where the string is no valid text. -/
theorem isName_of_mem_fields {bytes name : Bytes} (h : name ∈ fields bytes) :
    isName name = true := by
  have hpieces : pieces bytes = [] ++ pieces bytes := rfl
  exact isName_of_mem_fieldsFrom hpieces (by simp) h

end LineScript.Text
