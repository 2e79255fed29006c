import LineScript.Proofs.Image.Canonical

/-!
Images that are cut short and images with something after them. No beginning of an accepted image is
an image: while the mark is incomplete it is missed, and from then on the image is truncated,
wherever the cut falls. An accepted image with more bytes after it has trailing bytes. So no
accepted image is the beginning of another.
-/

set_option autoImplicit false
set_option relaxedAutoImplicit false

namespace LineScript

open Bytes

variable {ended : ReadError} {bytes line body : Bytes}

/-! ### The line of the version -/

theorem eq_append_of_takeLine (h : takeLine ended bytes = .ok (line, body)) :
    bytes = line ++ 0x0A :: body ∧ 0x0A ∉ line := by
  induction bytes generalizing line with
  | nil => cases h
  | cons byte bytes ih =>
    rw [takeLine] at h
    split_ifs at h with hnewline
    · cases h
      rw [hnewline]
      exact ⟨rfl, by simp⟩
    · split at h
      · rename_i tail after htail
        cases h
        obtain ⟨rfl, hnone⟩ := ih htail
        refine ⟨rfl, ?_⟩
        rw [List.mem_cons, not_or]
        exact ⟨Ne.symm hnewline, hnone⟩
      · cases h

/-- The bytes before the first space, where the mark is looked for. -/
def beforeSpace (line : Bytes) : Bytes :=
  line.takeWhile fun byte ↦ !(byte == 0x20)

/-- The version is accepted for the sake of its line, which starts with the mark. -/
theorem exists_line_of_takeVersion (h : takeVersion { bytes } ended = .ok ((), body)) :
    ∃ line, bytes = line ++ 0x0A :: body ∧ 0x0A ∉ line ∧ beforeSpace line = imageMark ∧
      ∀ more, takeVersion { bytes := line ++ 0x0A :: more } ended = .ok ((), more) := by
  unfold takeVersion at h
  cases hfound : takeLine ended bytes with
  | error error =>
    simp only [hfound, bind, Except.bind] at h
    split_ifs at h
  | ok found =>
    obtain ⟨line, rest⟩ := found
    obtain ⟨hbytes, hline⟩ := eq_append_of_takeLine hfound
    simp only [hfound, bind, Except.bind] at h
    split_ifs at h with hmark
    split at h
    · cases h
    · rename_i version hversion
      split_ifs at h with hnew
      cases h
      refine ⟨line, hbytes, hline, not_not.mp hmark, fun more ↦ ?_⟩
      simp only [takeVersion, takeLine_append ended hline, bind, Except.bind, hversion]
      rw [if_neg hmark, if_neg hnew]
      rfl

theorem takeLine_of_notMem (h : 0x0A ∉ line) : takeLine ended line = .error ended := by
  induction line with
  | nil => rfl
  | cons byte rest ih =>
    rw [List.mem_cons, not_or] at h
    rw [takeLine, if_neg (Ne.symm h.1), ih h.2]

/-- A line without its newline is looked at for the mark, and is otherwise cut short. -/
theorem takeVersion_of_notMem (h : 0x0A ∉ line) :
    takeVersion { bytes := line } ended =
      .error (if beforeSpace line = imageMark then ended else .badMark) := by
  simp only [takeVersion, takeLine_of_notMem h, bind, Except.bind]
  change (if beforeSpace line ≠ imageMark then _ else _) = _
  by_cases hmark : beforeSpace line = imageMark
  · rw [if_neg (not_not.mpr hmark), if_pos hmark]
  · rw [if_pos hmark, if_neg hmark]

/-- The mark is found in a beginning of its line as soon as it fits into it. -/
theorem beforeSpace_eq_imageMark_iff {part : Bytes} (hpart : part <+: line)
    (hmark : beforeSpace line = imageMark) : beforeSpace part = imageMark ↔ ¬ part.length < 10 := by
  have htake : beforeSpace part = imageMark.take part.length := by
    rw [← hmark, beforeSpace, beforeSpace, List.take_takeWhile, ← List.prefix_iff_eq_take.mp hpart]
  have hlength : imageMark.length = 10 := by decide
  rw [htake, Nat.not_lt, ← hlength]
  constructor
  · intro hfound
    rw [← hfound]
    exact List.length_take_le _ _
  · exact List.take_of_length_le

/-! ### Whole images -/

/-- After its version, an image is refused for what is wrong with its contents. -/
theorem readImage_of_takeContents {error : ReadError}
    (hversion : takeVersion { bytes } .truncated = .ok ((), body))
    (hcontents : takeContents .truncated .truncated body = .error error) :
    readImage { bytes } = .error error := by
  simp only [readImage, takeImage_eq, hversion, hcontents, bind, Except.bind]

theorem readImage_of_takeVersion {error : ReadError}
    (h : takeVersion { bytes } .truncated = .error error) : readImage { bytes } = .error error := by
  simp only [readImage, takeImage_eq, h, bind, Except.bind]

theorem readImage_of_rest {image : Image} {rest : Bytes}
    (hversion : takeVersion { bytes } .truncated = .ok ((), body))
    (hcontents : takeContents .truncated .truncated body = .ok (image, rest)) (hrest : rest ≠ []) :
    readImage { bytes } = .error .trailingBytes := by
  simp only [readImage, takeImage_eq, hversion, hcontents, hrest, if_false, bind, Except.bind]

/-- A cut before the end of the first line. -/
theorem readImage_of_prefix_line {part : Bytes} (hline : 0x0A ∉ line)
    (hmark : beforeSpace line = imageMark) (hpart : part <+: line) :
    readImage { bytes := part } = .error (if part.length < 10 then .badMark else .truncated) := by
  have hnewline : 0x0A ∉ part := fun hmem ↦ hline (hpart.subset hmem)
  refine readImage_of_takeVersion ?_
  rw [takeVersion_of_notMem hnewline]
  simp only [beforeSpace_eq_imageMark_iff hpart hmark, ite_not]

/-- Every proper beginning of an accepted image is refused for its mark or as truncated, and every
proper continuation of it for its trailing bytes. -/
theorem readImage_cut_or_continued {image : Image} (h : readImage { bytes } = .ok image) :
    (∀ part, part <+: bytes → part ≠ bytes →
      readImage { bytes := part } = .error (if part.length < 10 then .badMark else .truncated)) ∧
    ∀ more, more ≠ [] → readImage { bytes := bytes ++ more } = .error .trailingBytes := by
  obtain ⟨body, hversion, hcontents, -⟩ := exists_of_readImage h
  obtain ⟨line, rfl, hline, hmark, hversions⟩ := exists_line_of_takeVersion hversion
  obtain ⟨used, hused, hparts⟩ := sequential_takeContents .truncated body image [] hcontents
  rw [List.append_nil] at hused
  subst hused
  constructor
  · rintro part ⟨missing, hcut⟩ hproper
    have hmissing : missing ≠ [] := by
      rintro rfl
      exact hproper (by rw [← hcut, List.append_nil])
    rcases List.append_eq_append_iff.mp hcut with ⟨lost, hlost, -⟩ | ⟨begun, hbegun, hrest⟩
    · exact readImage_of_prefix_line hline hmark ⟨lost, hlost.symm⟩
    · rcases List.cons_eq_append_iff.mp hrest with ⟨rfl, -⟩ | ⟨contents, rfl, hcontents⟩
      · rw [List.append_nil] at hbegun
        exact readImage_of_prefix_line hline hmark (hbegun ▸ List.prefix_refl part)
      · -- The first line is whole, so the mark is there and the contents are cut short.
        have hlong : ¬ part.length < 10 := by
          have hfits := (beforeSpace_eq_imageMark_iff (List.prefix_refl line) hmark).mp hmark
          rw [hbegun, List.length_append]
          omega
        rw [if_neg hlong, hbegun]
        exact readImage_of_takeContents (hversions contents)
          (hparts.cutShort contents missing hcontents hmissing)
  · intro more hmore
    have hbytes : line ++ 0x0A :: body ++ more = line ++ 0x0A :: (body ++ more) := by simp
    rw [hbytes]
    exact readImage_of_rest (hversions _) (hparts.whole more) hmore

theorem laxBytes_cut_or_continued :
    readImage { bytes := Image.laxBytes } = .ok Image.laxImage ∧
      (∀ part, part <+: Image.laxBytes → part ≠ Image.laxBytes →
        readImage { bytes := part } =
          .error (if part.length < 10 then .badMark else .truncated)) ∧
      ∀ more, more ≠ [] →
        readImage { bytes := Image.laxBytes ++ more } = .error .trailingBytes :=
  ⟨Image.readImage_laxBytes, readImage_cut_or_continued Image.readImage_laxBytes⟩

end LineScript
