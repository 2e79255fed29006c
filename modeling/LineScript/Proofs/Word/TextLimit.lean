import LineScript.Proofs.Word.OnePass
import Mathlib.Data.List.TakeWhile

/-!
The limit on texts. Tokenizing under a limit gives what tokenizing without one gives, cut before the
first text that is over the limit. This holds at every depth: a group keeps the words before the
text and is not closed, and what follows the group does not count. So the limit accepts the lines
whose texts all keep to it, and changes none of their words.
-/

set_option autoImplicit false
set_option relaxedAutoImplicit false

namespace LineScript

open Bytes

/-- A text over the limit. -/
def Word.isLong (limit : Int) (word : Word) : Bool :=
  word.kind = .text && exceeds limit word.text

theorem Word.isLong_iff {limit : Int} (hlimit : 0 < limit) (word : Word) :
    word.isLong limit = true ↔ word.kind = .text ∧ limit < word.text.length := by
  simp [isLong, exceeds, hlimit]

/-- The limit refuses long texts, and all other words stand as they do without it. -/
theorem Word.refusal?_eq (limit : Int) (word : Word) :
    word.refusal? limit =
      if word.isLong limit then some (.textTooLong word.text) else word.refusal? 0 := by
  obtain ⟨kind, text⟩ := word
  cases kind with
  | text => simp [refusal?, isLong, exceeds]
  | _ => rfl

theorem Word.refusal?_zero_of_isLong {limit : Int} {word : Word} (h : word.isLong limit = true) :
    word.refusal? 0 = none := by
  obtain ⟨kind, text⟩ := word
  rw [isLong, Bool.and_eq_true, decide_eq_true_eq] at h
  obtain ⟨rfl, -⟩ := h
  simp [refusal?, exceeds]

/-! ### Tokens cut at a long text -/

namespace Tokens

variable {limit : Int}

/-- The tokens before the first long text, which is then the failure. -/
def capped (limit : Int) (tokens : Tokens) : Tokens :=
  match tokens.words.dropWhile (!·.isLong limit) with
  | [] => tokens
  | long :: _ => ⟨tokens.words.takeWhile (!·.isLong limit), some (.textTooLong long.text)⟩

theorem capped_nil (limit : Int) (error : Option LexicalError) :
    capped limit ⟨[], error⟩ = ⟨[], error⟩ :=
  rfl

theorem capped_cons_long {word : Word} (h : word.isLong limit = true) (tokens : Tokens) :
    (tokens.cons word).capped limit = ⟨[], some (.textTooLong word.text)⟩ := by
  simp [capped, cons, h]

theorem capped_cons {word : Word} (h : word.isLong limit = false) (tokens : Tokens) :
    (tokens.cons word).capped limit = (tokens.capped limit).cons word := by
  simp only [capped, cons, List.dropWhile_cons, List.takeWhile_cons, h, Bool.not_false, if_true]
  split <;> rfl

/-- By induction on the words of the group: a long text among them leaves the group open. -/
theorem capped_close (limit : Int) (inner after : Tokens) :
    (inner.close after).capped limit = (inner.capped limit).close (after.capped limit) := by
  obtain ⟨words, error⟩ := inner
  induction words with
  | nil =>
    cases error with
    | some error => rfl
    | none => exact capped_cons rfl after
  | cons word words ih =>
    change ((cons word ⟨words, error⟩).close after).capped limit =
      ((cons word ⟨words, error⟩).capped limit).close (after.capped limit)
    rw [close_cons]
    cases hlong : word.isLong limit with
    | true =>
      rw [capped_cons_long hlong, capped_cons_long hlong]
      rfl
    | false => rw [capped_cons hlong, capped_cons hlong, close_cons, ih]

theorem capped_enclose (limit : Int) (inner after : Tokens) :
    (inner.enclose after).capped limit = (inner.capped limit).enclose (after.capped limit) := by
  rw [enclose_eq_cons, enclose_eq_cons, capped_cons rfl, capped_close]

/-- Tokens are cut right before their first long text, and stay whole where there is none. -/
theorem capped_cases (limit : Int) (tokens : Tokens) :
    ((∀ word ∈ tokens.words, word.isLong limit = false) ∧ tokens.capped limit = tokens) ∨
      ∃ before long after, tokens.words = before ++ long :: after ∧ long.isLong limit = true ∧
        tokens.capped limit = ⟨before, some (.textTooLong long.text)⟩ := by
  have hsplit := List.takeWhile_append_dropWhile (p := (!·.isLong limit)) (l := tokens.words)
  have hfirst := List.head?_dropWhile_not (!·.isLong limit) tokens.words
  cases hdrop : tokens.words.dropWhile (!·.isLong limit) with
  | nil =>
    refine Or.inl ⟨?_, by rw [capped, hdrop]⟩
    simpa using List.dropWhile_eq_nil_iff.mp hdrop
  | cons long after =>
    rw [hdrop] at hsplit hfirst
    refine Or.inr ⟨_, long, after, hsplit.symm, by simpa using hfirst, ?_⟩
    rw [capped, hdrop]

end Tokens

/-! ### Lines -/

/-- Tokenizing under a limit is tokenizing without one, cut at the first long text. -/
theorem tokenize_eq_capped (limit : Int) (line : Bytes) :
    tokenize limit line = (tokenize 0 line).capped limit := by
  induction line using line_induction with
  | nil => rw [tokenize_nil, tokenize_nil, Tokens.capped_nil]
  | skipped byte rest hskipped ih =>
    rw [tokenize_of_isSkipped hskipped, tokenize_of_isSkipped hskipped, ih]
  | comment byte rest hcomment =>
    rw [tokenize_of_startsComment hcomment, tokenize_of_startsComment hcomment, Tokens.capped_nil]
  | group rest hinner hafter =>
    rw [tokenize_opening, tokenize_opening, Tokens.capped_enclose, hinner, hafter]
  | word byte rest hskipped hcomment hopening ih =>
    obtain ⟨hempty, hgroup⟩ := kind_scan (Bool.not_eq_true _ ▸ hskipped)
      (Bool.not_eq_true _ ▸ hcomment) hopening
    rw [tokenize_of_scan rfl hempty hgroup, tokenize_of_scan rfl hempty hgroup, Word.refusal?_eq,
      ih]
    cases hlong : (scan (byte :: rest)).1.isLong limit with
    | true =>
      rw [Word.refusal?_zero_of_isLong hlong]
      exact (Tokens.capped_cons_long hlong _).symm
    | false =>
      simp only [Bool.false_eq_true, if_false]
      cases (scan (byte :: rest)).1.refusal? 0 with
      | some error => rfl
      | none => exact (Tokens.capped_cons hlong _).symm

/-- A limit accepts exactly the lines whose texts keep to it, with the words that they have without
a limit. It refuses every other line that is accepted without one for a text that is too long, and
gives the words before that text. -/
theorem tokenize_within_limit {limit : Int} (hlimit : 0 < limit) (line : Bytes)
    (words : List Word) :
    (tokenize limit line = ⟨words, none⟩ ↔
      tokenize 0 line = ⟨words, none⟩ ∧
        ∀ word ∈ words, word.kind = .text → word.text.length ≤ limit) ∧
      ∀ error, tokenize 0 line = ⟨words, none⟩ → (tokenize limit line).error = some error →
        error.diagnostic.category = .lexical ∧
          error.diagnostic.message = utf8 "Text too long" ∧
          (tokenize limit line).words <+: words ∧ (tokenize limit line).words ≠ words := by
  rw [tokenize_eq_capped limit]
  rcases (tokenize 0 line).capped_cases limit with
    ⟨hshort, hcapped⟩ | ⟨before, long, after, hwords, hlong, hcapped⟩
  · rw [hcapped]
    refine ⟨⟨fun htokens ↦ ⟨htokens, ?_⟩, And.left⟩, ?_⟩
    · intro word hword htext
      rw [htokens] at hshort
      have hnot : ¬ word.isLong limit = true := by simp [hshort word hword]
      rw [Word.isLong_iff hlimit, not_and, Int.not_lt] at hnot
      exact hnot htext
    · intro error htokens herror
      rw [htokens] at herror
      cases herror
  · rw [hcapped]
    refine ⟨⟨by rintro ⟨⟩, ?_⟩, ?_⟩
    · rintro ⟨htokens, hshort⟩
      obtain rfl : words = before ++ long :: after := by rw [← hwords, htokens]
      obtain ⟨htext, hover⟩ := (Word.isLong_iff hlimit long).mp hlong
      have hkeeps := hshort long (by simp) htext
      omega
    · rintro error htokens ⟨⟩
      obtain rfl : words = before ++ long :: after := by rw [← hwords, htokens]
      exact ⟨rfl, rfl, List.prefix_append _ _, by simp⟩

/-- A line with texts of two and of five bytes, the longer one inside of two groups, of which the
outer one is not closed. -/
def nestedTexts : Bytes :=
  utf8 "@F(\"ab\", ($x \"a\\\"cde\") \"\""

/-- The words of the line without a limit. -/
def nestedTextsWords : List Word :=
  [⟨.funcname, utf8 "f"⟩, .opening, ⟨.text, utf8 "ab"⟩, .comma, .opening, ⟨.varname, utf8 "x"⟩,
    ⟨.text, utf8 "a\"cde"⟩, .closing, ⟨.text, []⟩, .closing]

theorem tokenize_within_limit_nestedTexts :
    (0 : Int) < 4 ∧ tokenize 0 nestedTexts = ⟨nestedTextsWords, none⟩ ∧
      (tokenize 4 nestedTexts).error = some (.textTooLong (utf8 "a\"cde")) ∧
      (tokenize 4 nestedTexts).words <+: nestedTextsWords ∧
      (tokenize 4 nestedTexts).words ≠ nestedTextsWords := by
  have hwhole : tokenize 0 nestedTexts = ⟨nestedTextsWords, none⟩ := by decide +kernel
  have herror : (tokenize 4 nestedTexts).error = some (.textTooLong (utf8 "a\"cde")) := by
    decide +kernel
  have hlimited := tokenize_within_limit (by decide : (0 : Int) < 4) nestedTexts nestedTextsWords
  exact ⟨by decide, hwhole, herror, (hlimited.2 _ hwhole herror).2.2⟩

end LineScript
