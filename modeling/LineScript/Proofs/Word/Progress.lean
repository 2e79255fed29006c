import LineScript.Proofs.Word.Cursor
import LineScript.Proofs.Word.OnePass
import Mathlib.Logic.Function.Iterate

/-!
Tokenizing ends. Scanning a line in place gives a word and a count of bytes inside the line; it
takes all of the line where there is no word and at least a byte where there is one, and the inside
of a group is a piece of what it takes, next to the parenthesis that opens it. So much is enough to
bound the work on a line. `Tokenizing.turn` does it one word at a time and keeps what follows each
open group for later: each turn lowers the weight of what is left, and none makes room for more open
groups than the line has bytes.
-/

set_option autoImplicit false
set_option relaxedAutoImplicit false

namespace LineScript

/-! ### What scanning takes -/

/-- Where there is no word, nothing is left. -/
theorem scan_eq_nil_of_empty {line : Bytes} (h : (scan line).1.kind = .empty) :
    (scan line).2 = [] := by
  induction line using line_induction with
  | nil => rfl
  | skipped byte rest hskipped ih =>
    rw [scan_of_isSkipped hskipped] at h ⊢
    exact ih h
  | comment byte rest hcomment => rw [scan_of_startsComment hcomment]
  | group rest _ _ => cases h
  | word byte rest hskipped hcomment hopening _ =>
    have hword := kind_scan (Bool.eq_false_iff.mp hskipped) (Bool.eq_false_iff.mp hcomment) hopening
    exact absurd h hword.1

/-- The inside of a group stands between the parenthesis that opens the group and what is left of
the line, with at most the closing parenthesis after it. -/
theorem exists_group_piece {line : Bytes} (h : (scan line).1.kind = .group) :
    ∃ skipped closing,
      line = (skipped ++ 0x28 :: ((scan line).1.text ++ closing)) ++ (scan line).2 := by
  induction line using line_induction with
  | nil => cases h
  | skipped byte rest hskipped ih =>
    rw [scan_of_isSkipped hskipped] at h ⊢
    obtain ⟨skipped, closing, hline⟩ := ih h
    exact ⟨byte :: skipped, closing, congrArg (byte :: ·) hline⟩
  | comment byte rest hcomment =>
    rw [scan_of_startsComment hcomment] at h
    cases h
  | group rest _ _ =>
    rw [scan_opening]
    rcases closing_cases ⟨0, .outside⟩ rest with ⟨next, hrun⟩ | ⟨inner, after, rfl, hrun⟩
    · rw [cut_of_run? hrun]
      exact ⟨[], [], by simp⟩
    · rw [cut_closing hrun]
      exact ⟨[], [0x29], by simp⟩
  | word byte rest hskipped hcomment hopening _ =>
    have hword := kind_scan (Bool.eq_false_iff.mp hskipped) (Bool.eq_false_iff.mp hcomment) hopening
    exact absurd h hword.2

theorem length_group_add_lt {line : Bytes} (h : (scan line).1.kind = .group) :
    (scan line).1.text.length + (scan line).2.length < line.length := by
  obtain ⟨skipped, closing, hline⟩ := exists_group_piece h
  have hlength := congrArg List.length hline
  simp only [List.length_append, List.length_cons] at hlength
  omega

/-! ### Turn by turn -/

/-- Tokenizing a line, under way or done. Under way there are the words found so far, what is left
of the innermost open group or else of the line, and what follows each open group, from the
innermost one outwards. -/
inductive Tokenizing where
  | going (words : List Word) (line : Bytes) (outer : List Bytes)
  | done (tokens : Tokens)

namespace Tokenizing

/-- After the end of a group goes on what follows it. -/
def resume (words : List Word) : List Bytes → Tokenizing
  | [] => .done ⟨words, none⟩
  | after :: outer => .going (words ++ [.closing]) after outer

/-- One more word, or the end of what is left of a group or of the line. -/
def turn (limit : Int) : Tokenizing → Tokenizing
  | .done tokens => .done tokens
  | .going words line outer =>
    if (scan line).1.kind = .empty then resume words outer
    else
      match (scan line).1.refusal? limit with
      | some error => .done ⟨words, some error⟩
      | none =>
        if (scan line).1.kind = .group then
          .going (words ++ [.opening]) (scan line).1.text ((scan line).2 :: outer)
        else .going (words ++ [(scan line).1]) (scan line).2 outer

/-- A bound on the turns that are left. -/
def weight : Tokenizing → Nat
  | .going _ line outer => 2 * (line.length + outer.flatten.length) + outer.length + 1
  | .done _ => 0

/-- A bound on the groups that are open, now and later. -/
def room : Tokenizing → Nat
  | .going _ line outer => line.length + outer.flatten.length + outer.length
  | .done _ => 0

/-- The groups that are open. -/
def depth : Tokenizing → Nat
  | .going _ _ outer => outer.length
  | .done _ => 0

/-- The tokens of what is left: those of a line, and after it the closing parenthesis and the
tokens of what follows the group it is the rest of. -/
def tokensLeft (limit : Int) : Bytes → List Bytes → Tokens
  | line, [] => tokenize limit line
  | line, after :: outer => (tokenize limit line).close (tokensLeft limit after outer)

/-- The tokens that tokenizing will end with. -/
def outcome (limit : Int) : Tokenizing → Tokens
  | .going words line outer => words.foldr Tokens.cons (tokensLeft limit line outer)
  | .done tokens => tokens

section Left

variable {limit : Int} {line : Bytes} {outer : List Bytes}

theorem tokensLeft_word {rest : Bytes} {word : Word}
    (h : tokenize limit line = (tokenize limit rest).cons word) :
    tokensLeft limit line outer = (tokensLeft limit rest outer).cons word := by
  cases outer with
  | nil => exact h
  | cons after outer => rw [tokensLeft, h, Tokens.close_cons, tokensLeft]

theorem tokensLeft_group {inner rest : Bytes}
    (h : tokenize limit line = (tokenize limit inner).enclose (tokenize limit rest)) :
    tokensLeft limit line outer = (tokensLeft limit inner (rest :: outer)).cons .opening := by
  rw [Tokens.enclose_eq_cons] at h
  cases outer with
  | nil => exact h
  | cons after outer =>
    rw [tokensLeft, h, Tokens.close_cons, Tokens.close_close, tokensLeft, tokensLeft]

theorem tokensLeft_refused {error : LexicalError}
    (h : tokenize limit line = ⟨[], some error⟩) :
    tokensLeft limit line outer = ⟨[], some error⟩ := by
  cases outer with
  | nil => exact h
  | cons after outer => rw [tokensLeft, h]; rfl

theorem tokensLeft_end {after : Bytes} (h : tokenize limit line = ⟨[], none⟩) :
    tokensLeft limit line (after :: outer) = (tokensLeft limit after outer).cons .closing := by
  rw [tokensLeft, h]
  rfl

theorem foldr_cons (words : List Word) (error : Option LexicalError) :
    words.foldr Tokens.cons ⟨[], error⟩ = ⟨words, error⟩ := by
  induction words with
  | nil => rfl
  | cons word words ih => rw [List.foldr_cons, ih]; rfl

end Left

/-- What one turn does to the bounds and the outcome. -/
structure Advances (limit : Int) (before after : Tokenizing) : Prop where
  weight_lt : after.weight < before.weight
  room_le : after.room ≤ before.room
  outcome_eq : after.outcome limit = before.outcome limit

/-- Where a line has ended, the end of the group counts as a word. -/
theorem advances_resume {limit : Int} (words : List Word) {line : Bytes} (outer : List Bytes)
    (h : tokenize limit line = ⟨[], none⟩) :
    Advances limit (.going words line outer) (resume words outer) := by
  cases outer with
  | nil =>
    refine ⟨Nat.succ_pos _, Nat.zero_le _, ?_⟩
    rw [resume, outcome, outcome, tokensLeft, h, foldr_cons]
  | cons after outer =>
    refine ⟨?_, ?_, ?_⟩
    · simp only [resume, weight, List.flatten_cons, List.length_append, List.length_cons]
      omega
    · simp only [resume, room, List.flatten_cons, List.length_append, List.length_cons]
      omega
    · rw [resume, outcome, outcome, tokensLeft_end h, List.foldr_append]
      rfl

theorem advances_turn (limit : Int) (words : List Word) (line : Bytes) (outer : List Bytes) :
    Advances limit (.going words line outer) (turn limit (.going words line outer)) := by
  have htokens := tokenize_eq limit line
  rw [turn]
  by_cases hempty : (scan line).1.kind = .empty
  · rw [if_pos hempty] at htokens ⊢
    exact advances_resume words outer htokens
  · rw [if_neg hempty] at htokens ⊢
    cases hrefusal : (scan line).1.refusal? limit with
    | some error =>
      rw [hrefusal] at htokens
      refine ⟨Nat.succ_pos _, Nat.zero_le _, ?_⟩
      rw [outcome, outcome, tokensLeft_refused htokens, foldr_cons]
    | none =>
      rw [hrefusal] at htokens
      by_cases hgroup : (scan line).1.kind = .group
      · have hlength := length_group_add_lt hgroup
        simp only [if_pos hgroup] at htokens ⊢
        refine ⟨?_, ?_, ?_⟩
        · simp only [weight, List.flatten_cons, List.length_append, List.length_cons]
          omega
        · simp only [room, List.flatten_cons, List.length_append, List.length_cons]
          omega
        · rw [outcome, outcome, tokensLeft_group htokens, List.foldr_append]
          rfl
      · have hlength := length_scan_lt line hempty
        simp only [if_neg hgroup] at htokens ⊢
        refine ⟨?_, ?_, ?_⟩
        · simp only [weight]
          omega
        · simp only [room]
          omega
        · rw [outcome, outcome, tokensLeft_word htokens, List.foldr_append]
          rfl

/-! ### Whole runs -/

theorem iterate_turn_done (limit : Int) (turns : Nat) (tokens : Tokens) :
    (turn limit)^[turns] (.done tokens) = .done tokens :=
  Function.iterate_fixed rfl turns

/-- Within as many turns as the weight, tokenizing is done. -/
theorem iterate_turn {limit : Int} {turns : Nat} {state : Tokenizing} (h : state.weight ≤ turns) :
    (turn limit)^[turns] state = .done (state.outcome limit) := by
  induction turns generalizing state with
  | zero =>
    cases state with
    | going words line outer => exact absurd h (Nat.not_succ_le_zero _)
    | done tokens => rfl
  | succ turns ih =>
    cases state with
    | going words line outer =>
      have hturn := advances_turn limit words line outer
      have hweight := Nat.le_of_lt_succ (Nat.lt_of_lt_of_le hturn.weight_lt h)
      rw [Function.iterate_succ_apply, ih hweight, hturn.outcome_eq]
    | done tokens => exact iterate_turn_done limit _ tokens

theorem depth_le_room (state : Tokenizing) : state.depth ≤ state.room := by
  cases state with
  | going words line outer => exact Nat.le_add_left _ _
  | done tokens => exact Nat.zero_le _

/-- No turn ever comes to more open groups than there was room for. -/
theorem depth_iterate_turn_le (limit : Int) (turns : Nat) (state : Tokenizing) :
    ((turn limit)^[turns] state).depth ≤ state.room := by
  induction turns generalizing state with
  | zero => exact depth_le_room state
  | succ turns ih =>
    cases state with
    | going words line outer =>
      rw [Function.iterate_succ_apply]
      exact Nat.le_trans (ih _) (advances_turn limit words line outer).room_le
    | done tokens =>
      rw [iterate_turn_done]
      exact Nat.zero_le _

end Tokenizing

/-- Scanning in place has a result on every line, so nothing outside the line is read or copied. It
counts no more bytes than the line has, all of them where there is no word and at least one where
there is a word; the inside of a group is a piece of the counted bytes and shorter than they are.
Tokenizing the line therefore ends: it is done after as many turns as twice the bytes of the line
and one more, and at no time are more groups open than the line has bytes. -/
theorem scan_within_line (line : Bytes) :
    ∃ word count, Cursor.next? line 0 = some (word, count) ∧ scan line = (word, line.drop count) ∧
      count ≤ line.length ∧ (word.kind = .empty → count = line.length) ∧
      (word.kind ≠ .empty → 1 ≤ count) ∧
      (word.kind = .group → word.text <:+: line.take count ∧ word.text.length ≤ count - 1) ∧
      ∀ limit,
        (Tokenizing.turn limit)^[2 * line.length + 1] (.going [] line []) =
            .done (tokenize limit line) ∧
          ∀ turns, ((Tokenizing.turn limit)^[turns] (.going [] line [])).depth ≤ line.length := by
  obtain ⟨count, hnext, hstands⟩ := Cursor.finds_next (Cursor.stands_start line)
  have hlength := hstands.length_eq
  refine ⟨(scan line).1, count, hnext, ?_, hstands.inside, ?_, ?_, ?_, ?_⟩
  · rw [hstands.left]
  · intro hempty
    rw [scan_eq_nil_of_empty hempty] at hstands
    exact hstands.eq_length
  · intro hword
    have := length_scan_lt line hword
    omega
  · intro hgroup
    obtain ⟨skipped, closing, hline⟩ := exists_group_piece hgroup
    have htake := hstands.take_eq hline
    have hpiece : (skipped ++ [0x28]) ++ (scan line).1.text ++ closing = line.take count := by
      rw [htake, List.append_assoc, List.append_assoc]
      rfl
    have := length_group_add_lt hgroup
    exact ⟨⟨skipped ++ [0x28], closing, hpiece⟩, by omega⟩
  · intro limit
    exact ⟨Tokenizing.iterate_turn (Nat.le_refl _),
      fun turns ↦ Tokenizing.depth_iterate_turn_le limit turns _⟩

end LineScript
