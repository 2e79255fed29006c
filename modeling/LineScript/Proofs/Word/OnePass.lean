import LineScript.Proofs.Word.Enclosed

/-!
Tokenizing in one pass. `onePass` walks along a line once and only counts the parentheses that are
open: it never looks for the end of a group, except that a comment inside one is skipped up to the
parenthesis that closes it. It gives the same words and the same failure as `tokenize`, which takes
out each group and tokenizes it on its own.
-/

set_option autoImplicit false
set_option relaxedAutoImplicit false

namespace LineScript

/-- What is left of a line from the parenthesis on that closes `depth` groups opened in the line
and one opened before it. Text in quotes closes none. -/
def fromClosing (depth : Nat) (line : Bytes) : Bytes :=
  match line with
  | [] => []
  | byte :: rest =>
    if byte = 0x22 then fromClosing depth (quotedText rest).2
    else if byte = 0x28 then fromClosing (depth + 1) rest
    else if byte = 0x29 then
      match depth with
      | 0 => byte :: rest
      | depth + 1 => fromClosing depth rest
    else fromClosing depth rest
termination_by line.length
decreasing_by
  all_goals simp only [List.length_cons]
  · exact Nat.lt_succ_of_le (length_quotedText_le rest)
  all_goals omega

/-- The comment goes on to where the group is cut. -/
theorem fromClosing_eq_drop (depth : Nat) (line : Bytes) :
    fromClosing depth line = line.drop (enclosed ⟨depth, .outside⟩ line).1.length := by
  fun_induction fromClosing depth line with
  | case1 => rfl
  | case2 depth rest ih =>
    obtain ⟨eaten, hline, henclosed, -⟩ := exists_enclosed_quotedText depth rest
    have hopen : enclosed ⟨depth, .outside⟩ (0x22 :: rest) =
        (0x22 :: (enclosed ⟨depth, .inside⟩ rest).1, (enclosed ⟨depth, .inside⟩ rest).2) := rfl
    have hdrop : rest.drop eaten.length = (quotedText rest).2 :=
      (congrArg (List.drop eaten.length) hline).trans List.drop_left
    rw [ih, hopen, List.length_cons, List.drop_succ_cons, henclosed, List.length_append,
      ← List.drop_drop, hdrop]
  | case3 depth rest hquote ih => exact ih
  | case4 rest hquote hopening => rfl
  | case5 rest depth hquote hopening ih => exact ih
  | case6 depth byte rest hquote hopening hclosing ih =>
    have hplain : isPlain byte = true := (isPlain_iff byte).mpr ⟨hquote, hopening, hclosing⟩
    rw [ih, enclosed_cons (Nesting.step?_plain hplain depth), List.length_cons,
      List.drop_succ_cons]

theorem length_fromClosing_le (depth : Nat) (line : Bytes) :
    (fromClosing depth line).length ≤ line.length := by
  rw [fromClosing_eq_drop, List.length_drop]
  exact Nat.sub_le _ _

/-- After a comment in a group stands the parenthesis that closes it, or nothing. -/
theorem fromClosing_cases (line : Bytes) :
    (fromClosing 0 line = [] ∧ (cut line).2 = []) ∨ fromClosing 0 line = 0x29 :: (cut line).2 := by
  have hdrop : fromClosing 0 line = line.drop (cut line).1.length := fromClosing_eq_drop 0 line
  rw [hdrop]
  rcases closing_cases ⟨0, .outside⟩ line with ⟨next, hrun⟩ | ⟨inner, after, rfl, hrun⟩
  · rw [cut_of_run? hrun]
    exact Or.inl ⟨List.drop_length, rfl⟩
  · rw [cut_closing hrun]
    exact Or.inr List.drop_left

theorem not_slashes_of_startsComment {byte second : UInt8} {rest : Bytes}
    (h : startsComment byte (second :: rest) = false) : ¬ (byte = 0x2F ∧ second = 0x2F) := by
  rintro ⟨rfl, rfl⟩
  exact absurd h (by simp [startsComment])

theorem kind_operatorWord {byte : UInt8} {rest : Bytes} (h : startsComment byte rest = false) :
    (operatorWord byte rest).1.kind = .operator := by
  cases rest with
  | nil => rfl
  | cons second rest =>
    rw [operatorWord, if_neg (not_slashes_of_startsComment h)]
    split_ifs <;> rfl

/-- What is not skipped and starts no comment and no group is a word. -/
theorem kind_scan {byte : UInt8} {rest : Bytes} (hskipped : ¬ isSkipped byte rest = true)
    (hcomment : ¬ startsComment byte rest = true) (hopening : byte ≠ 0x28) :
    (scan (byte :: rest)).1.kind ≠ .empty ∧ (scan (byte :: rest)).1.kind ≠ .group := by
  rw [Bool.not_eq_true] at hskipped hcomment
  obtain ⟨-, hleadOpening, hleadSemicolon⟩ := byte_eq_of_lead byte
  cases hlead : Lead.ofByte byte with
  | space => simp [isSkipped, hlead] at hskipped
  | tab => simp [scan, hlead, Word.tab]
  | comma => simp [scan, hlead, Word.comma]
  | trail => simp [scan, hlead, Word.trail]
  | cast => simp [scan, hlead, Word.cast]
  | dollar =>
    simp only [isSkipped, hlead, Bool.not_eq_false'] at hskipped
    simp [scan, hlead, hskipped, nameWord]
  | atSign =>
    simp only [isSkipped, hlead, Bool.not_eq_false'] at hskipped
    simp [scan, hlead, hskipped, nameWord]
  | quote => simp [scan, hlead]
  | opening => exact absurd (hleadOpening hlead) hopening
  | semicolon => simp [startsComment, hleadSemicolon hlead] at hcomment
  | operator => simp [scan, hlead, kind_operatorWord hcomment]
  | digit => simp [scan, hlead]
  | letter => simp [scan, hlead, nameWord]
  | other =>
    cases hfirst : Text.first? (byte :: rest) with
    | none => simp [scan, hlead, hfirst]
    | some found => simp [scan, hlead, hfirst]

/-- The words of a line with `depth` parentheses open before it. Those that are open at its end are
closed there. -/
def onePass (limit : Int) (depth : Nat) (line : Bytes) : Tokens :=
  match line with
  | [] => ⟨List.replicate depth .closing, none⟩
  | byte :: rest =>
    if isSkipped byte rest then onePass limit depth rest
    else if startsComment byte rest then
      if depth = 0 then ⟨[], none⟩ else onePass limit depth (fromClosing 0 rest)
    else if byte = 0x28 then (onePass limit (depth + 1) rest).cons .opening
    else if byte = 0x29 ∧ depth ≠ 0 then (onePass limit (depth - 1) rest).cons .closing
    else
      match (scan (byte :: rest)).1.refusal? limit with
      | some error => ⟨[], some error⟩
      | none => (onePass limit depth (scan (byte :: rest)).2).cons (scan (byte :: rest)).1
termination_by line.length
decreasing_by
  · exact Nat.lt_succ_self _
  · exact Nat.lt_succ_of_le (length_fromClosing_le 0 rest)
  · exact Nat.lt_succ_self _
  · exact Nat.lt_succ_self _
  · rename_i hskipped hcomment hopening _
    exact length_scan_lt _ (kind_scan hskipped hcomment hopening).1

/-! ### The same words -/

theorem tokenize_eq (limit : Int) (line : Bytes) :
    tokenize limit line =
      if (scan line).1.kind = .empty then ⟨[], none⟩
      else
        match (scan line).1.refusal? limit with
        | some error => ⟨[], some error⟩
        | none =>
          if (scan line).1.kind = .group then
            (tokenize limit (scan line).1.text).enclose (tokenize limit (scan line).2)
          else (tokenize limit (scan line).2).cons (scan line).1 :=
  tokenize.eq_1 limit line

theorem tokenize_of_isSkipped {byte : UInt8} {rest : Bytes} (h : isSkipped byte rest = true)
    (limit : Int) : tokenize limit (byte :: rest) = tokenize limit rest := by
  rw [tokenize_eq, scan_of_isSkipped h, ← tokenize_eq]

theorem tokenize_of_startsComment {byte : UInt8} {rest : Bytes}
    (h : startsComment byte rest = true) (limit : Int) :
    tokenize limit (byte :: rest) = ⟨[], none⟩ := by
  rw [tokenize_eq, scan_of_startsComment h]
  rfl

theorem tokenize_opening (limit : Int) (rest : Bytes) :
    tokenize limit (0x28 :: rest) =
      (tokenize limit (cut rest).1).enclose (tokenize limit (cut rest).2) := by
  rw [tokenize_eq, scan_opening]
  rfl

/-- Tokens of the inside of a group, then its closing parenthesis and the tokens after it, which do
not count when the inside has a failure. -/
def Tokens.close (inner after : Tokens) : Tokens :=
  match inner.error with
  | some error => ⟨inner.words, some error⟩
  | none => ⟨inner.words ++ Word.closing :: after.words, after.error⟩

theorem Tokens.enclose_eq_cons (inner after : Tokens) :
    inner.enclose after = (inner.close after).cons .opening := by
  rw [enclose, close]
  cases inner.error <;> rfl

theorem Tokens.close_cons (word : Word) (inner after : Tokens) :
    (inner.cons word).close after = (inner.close after).cons word := by
  rw [close, close, cons]
  cases inner.error <;> rfl

theorem Tokens.close_close (first second after : Tokens) :
    (first.close second).close after = first.close (second.close after) := by
  cases hfirst : first.error with
  | some error => simp [close, hfirst]
  | none => cases hsecond : second.error <;> simp [close, hfirst, hsecond]

theorem tokenize_of_scan {line after : Bytes} {word : Word} (h : scan line = (word, after))
    (hempty : word.kind ≠ .empty) (hgroup : word.kind ≠ .group) (limit : Int) :
    tokenize limit line =
      match word.refusal? limit with
      | some error => ⟨[], some error⟩
      | none => (tokenize limit after).cons word := by
  rw [tokenize_eq, h, if_neg hempty]
  cases word.refusal? limit with
  | some error => rfl
  | none => exact if_neg hgroup

/-- Induction along a line: a byte that is skipped, a comment, a group and what follows it, or
another word and what follows that. -/
theorem line_induction {motive : Bytes → Prop} (nil : motive [])
    (skipped : ∀ byte rest, isSkipped byte rest = true → motive rest → motive (byte :: rest))
    (comment : ∀ byte rest, startsComment byte rest = true → motive (byte :: rest))
    (group : ∀ rest, motive (cut rest).1 → motive (cut rest).2 → motive (0x28 :: rest))
    (word : ∀ byte rest, isSkipped byte rest = false → startsComment byte rest = false →
      byte ≠ 0x28 → motive (scan (byte :: rest)).2 → motive (byte :: rest))
    (line : Bytes) : motive line := by
  induction hlength : line.length using Nat.strongRecOn generalizing line with
  | ind n ih =>
    subst hlength
    cases line with
    | nil => exact nil
    | cons byte rest =>
      by_cases hskipped : isSkipped byte rest = true
      · exact skipped byte rest hskipped (ih _ (Nat.lt_succ_self _) rest rfl)
      by_cases hcomment : startsComment byte rest = true
      · exact comment byte rest hcomment
      by_cases hopening : byte = 0x28
      · subst hopening
        have hlength := length_enclosed_le ⟨0, .outside⟩ rest
        refine group rest (ih _ ?_ _ rfl) (ih _ ?_ _ rfl)
        · exact Nat.lt_succ_of_le (Nat.le_trans (Nat.le_add_right _ _) hlength)
        · exact Nat.lt_succ_of_le (Nat.le_trans (Nat.le_add_left _ _) hlength)
      · have hlength := length_scan_lt _ (kind_scan hskipped hcomment hopening).1
        exact word byte rest (Bool.not_eq_true _ ▸ hskipped) (Bool.not_eq_true _ ▸ hcomment)
          hopening (ih _ hlength _ rfl)

/-- The one pass over a line gives its tokens, and inside a group it gives the tokens before the
closing parenthesis, that parenthesis, and then what it gives after it. -/
def OnePassAgrees (limit : Int) (line : Bytes) : Prop :=
  onePass limit 0 line = tokenize limit line ∧
    ∀ depth, onePass limit (depth + 1) line =
      (tokenize limit (cut line).1).close (onePass limit depth (cut line).2)

section Agreement

variable {limit : Int} {byte : UInt8} {rest : Bytes}

theorem onePass_nil (limit : Int) (depth : Nat) :
    onePass limit depth [] = ⟨List.replicate depth .closing, none⟩ := by
  rw [onePass]

theorem onePass_of_isSkipped (h : isSkipped byte rest = true) (limit : Int) (depth : Nat) :
    onePass limit depth (byte :: rest) = onePass limit depth rest := by
  rw [onePass, if_pos h]

theorem onePass_opening (limit : Int) (depth : Nat) (rest : Bytes) :
    onePass limit depth (0x28 :: rest) = (onePass limit (depth + 1) rest).cons .opening := by
  have hskipped : ¬ isSkipped 0x28 rest = true := Bool.false_ne_true
  have hcomment : ¬ startsComment 0x28 rest = true := Bool.false_ne_true
  rw [onePass, if_neg hskipped, if_neg hcomment, if_pos rfl]

theorem onePass_closing (limit : Int) (depth : Nat) (rest : Bytes) :
    onePass limit (depth + 1) (0x29 :: rest) = (onePass limit depth rest).cons .closing := by
  have hskipped : ¬ isSkipped 0x29 rest = true := Bool.false_ne_true
  have hcomment : ¬ startsComment 0x29 rest = true := Bool.false_ne_true
  rw [onePass, if_neg hskipped, if_neg hcomment, if_neg (by decide),
    if_pos ⟨rfl, Nat.succ_ne_zero depth⟩, Nat.add_sub_cancel]

theorem onePass_word (hskipped : ¬ isSkipped byte rest = true)
    (hcomment : ¬ startsComment byte rest = true) (hopening : byte ≠ 0x28)
    (hclosing : byte ≠ 0x29) (limit : Int) (depth : Nat) :
    onePass limit depth (byte :: rest) =
      match (scan (byte :: rest)).1.refusal? limit with
      | some error => ⟨[], some error⟩
      | none => (onePass limit depth (scan (byte :: rest)).2).cons (scan (byte :: rest)).1 := by
  rw [onePass, if_neg hskipped, if_neg hcomment, if_neg hopening, if_neg fun h ↦ hclosing h.1]

theorem tokenize_nil (limit : Int) : tokenize limit [] = ⟨[], none⟩ := by
  rw [tokenize_eq]
  rfl

theorem onePassAgrees_nil (limit : Int) : OnePassAgrees limit [] := by
  have hcut : cut [] = ([], []) := rfl
  constructor
  · rw [tokenize_nil, onePass_nil]
    rfl
  · intro depth
    rw [hcut, tokenize_nil, onePass_nil, onePass_nil]
    rfl

theorem onePassAgrees_skipped (h : isSkipped byte rest = true) (hrest : OnePassAgrees limit rest) :
    OnePassAgrees limit (byte :: rest) := by
  have hstep := onePass_of_isSkipped h limit
  constructor
  · rw [hstep, hrest.1, tokenize_of_isSkipped h]
  · intro depth
    have hinner : isSkipped byte (cut rest).1 = true := (isSkipped_cut byte rest).trans h
    rw [hstep, cut_cons_plain (isPlain_of_isSkipped h), tokenize_of_isSkipped hinner, hrest.2]

theorem onePassAgrees_comment (hskipped : ¬ isSkipped byte rest = true)
    (h : startsComment byte rest = true) : OnePassAgrees limit (byte :: rest) := by
  constructor
  · rw [onePass, if_neg hskipped, if_pos h, if_pos rfl, tokenize_of_startsComment h]
  · intro depth
    have hinner : startsComment byte (cut rest).1 = true := (startsComment_cut byte rest).trans h
    rw [onePass, if_neg hskipped, if_pos h, if_neg (Nat.succ_ne_zero depth),
      cut_cons_plain (isPlain_of_startsComment h), tokenize_of_startsComment hinner]
    rcases fromClosing_cases rest with ⟨hend, hafter⟩ | hclose
    · rw [hend, hafter, onePass_nil, onePass_nil]
      rfl
    · rw [hclose, onePass_closing]
      rfl

theorem onePassAgrees_opening (hrest : OnePassAgrees limit rest)
    (hafter : OnePassAgrees limit (cut rest).2) : OnePassAgrees limit (0x28 :: rest) := by
  constructor
  · rw [onePass_opening, hrest.2, hafter.1, tokenize_opening, Tokens.enclose_eq_cons]
  · intro depth
    obtain ⟨inner, hcut, hinner⟩ := exists_cut_opening rest
    rw [onePass_opening, hrest.2, hafter.2, hcut, tokenize_opening, hinner, Tokens.enclose_eq_cons,
      Tokens.close_cons, Tokens.close_close]

theorem onePassAgrees_closing (limit : Int) (rest : Bytes) :
    OnePassAgrees limit (0x29 :: rest) := by
  have hskipped : ¬ isSkipped 0x29 rest = true := Bool.false_ne_true
  have hcomment : ¬ startsComment 0x29 rest = true := Bool.false_ne_true
  constructor
  · rw [onePass, if_neg hskipped, if_neg hcomment, if_neg (by decide),
      if_neg fun h ↦ h.2 rfl, tokenize_eq]
    rfl
  · intro depth
    have hcut : cut (0x29 :: rest) = ([], rest) := rfl
    rw [onePass_closing, hcut, tokenize_nil]
    rfl

theorem onePassAgrees_word (hskipped : ¬ isSkipped byte rest = true)
    (hcomment : ¬ startsComment byte rest = true) (hopening : byte ≠ 0x28)
    (hclosing : byte ≠ 0x29) (hafter : OnePassAgrees limit (scan (byte :: rest)).2) :
    OnePassAgrees limit (byte :: rest) := by
  obtain ⟨hempty, hgroup⟩ := kind_scan hskipped hcomment hopening
  have hstep := onePass_word hskipped hcomment hopening hclosing limit
  obtain ⟨hinner, hcut⟩ :=
    scan_cut (Bool.not_eq_true _ ▸ hskipped) (Bool.not_eq_true _ ▸ hcomment) hopening hclosing
  constructor
  · rw [hstep, tokenize_of_scan rfl hempty hgroup, hafter.1]
  · intro depth
    rw [hstep, tokenize_of_scan hinner hempty hgroup, hcut, hafter.2]
    cases (scan (byte :: rest)).1.refusal? limit with
    | some error => rfl
    | none => exact (Tokens.close_cons _ _ _).symm

end Agreement

theorem onePassAgrees (limit : Int) (line : Bytes) : OnePassAgrees limit line := by
  induction hlength : line.length using Nat.strongRecOn generalizing line with
  | ind n ih =>
    subst hlength
    cases line with
    | nil => exact onePassAgrees_nil limit
    | cons byte rest =>
      have hrest : OnePassAgrees limit rest := ih _ (Nat.lt_succ_self _) rest rfl
      by_cases hskipped : isSkipped byte rest = true
      · exact onePassAgrees_skipped hskipped hrest
      by_cases hcomment : startsComment byte rest = true
      · exact onePassAgrees_comment hskipped hcomment
      by_cases hopening : byte = 0x28
      · subst hopening
        have hlength : (cut rest).2.length ≤ rest.length :=
          Nat.le_trans (Nat.le_add_left _ _) (length_enclosed_le ⟨0, .outside⟩ rest)
        exact onePassAgrees_opening hrest (ih _ (Nat.lt_succ_of_le hlength) _ rfl)
      by_cases hclosing : byte = 0x29
      · subst hclosing
        exact onePassAgrees_closing limit rest
      · have hlength := length_scan_lt _ (kind_scan hskipped hcomment hopening).1
        exact onePassAgrees_word hskipped hcomment hopening hclosing (ih _ hlength _ rfl)

/-- Taking out groups and tokenizing them on their own gives what one pass over the line gives. -/
theorem tokenize_eq_onePass (limit : Int) (line : Bytes) :
    tokenize limit line = onePass limit 0 line :=
  (onePassAgrees limit line).1.symm

end LineScript
