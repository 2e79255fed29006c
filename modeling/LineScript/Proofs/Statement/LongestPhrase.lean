import LineScript.Proofs.Statement.Expression

/-!
A recogniser that finds a phrase finds the longest one. It never goes back, and what it leaves is an
end of what any phrase at the same beginning leaves. Nothing is asked of the words that follow the
phrase: where they make it longer, the recogniser has gone further, and where it took them for more
of the phrase and was wrong, it has found nothing at all.
-/

set_option autoImplicit false
set_option relaxedAutoImplicit false

namespace LineScript.Statement

theorem suffix_of_skip {category : Category} {words rest : List Word}
    (h : skip category words = some rest) : rest <:+ words := by
  obtain ⟨phrase, rfl, -⟩ := sound words category rest h
  exact List.suffix_append phrase rest

theorem suffix_of_skipOptional {words rest : List Word} (h : skipOptional words = some rest) :
    rest <:+ words := by
  rcases (sound words).optional h with rfl | ⟨values, rfl, -⟩
  · exact List.suffix_rfl
  · exact List.suffix_append values rest

theorem endsOperand_nil : EndsOperand [] :=
  fun word hword ↦ absurd hword (Option.not_mem_none word)

/-- Only the first word after an operand matters, so nothing is asked of what follows `more`. -/
theorem endsOperand_of_begins {more : List Word} (h : Begins .moreOperands more) (hmore : more ≠ [])
    (tail : List Word) : EndsOperand (more ++ tail) := by
  obtain ⟨operator, more, rfl⟩ := List.exists_cons_of_ne_nil hmore
  have hends : EndsOperand (operator :: more ++ []) := endsOperand_moreOperands h endsOperand_nil
  exact hends

theorem ends_primary_of_begins {after : List Word} (h : Begins .suffixes after)
    (hafter : after ≠ []) (tail : List Word) : Ends .primary (after ++ tail) := by
  obtain ⟨first, after, rfl⟩ := List.exists_cons_of_ne_nil hafter
  have hends : Ends .primary (first :: after ++ []) := ends_primary_suffixes h endsOperand_nil
  exact hends

/-- What is left after a recogniser is an end of what a phrase of its category leaves. -/
def Covers (category : Category) (phrase : List Word) : Prop :=
  ∀ tail rest, skip category (phrase ++ tail) = some rest → rest <:+ tail

/-- A first phrase before a second one that may be empty. If the second is empty, the recogniser of
the first may go further than the phrase, and the other goes on from there; if not, the first
recogniser stops where the second phrase begins. -/
theorem suffix_of_bind {category next : Category} {first more tail rest : List Word}
    (hfirst : Derives .all category first) (hends : more ≠ [] → Ends category (more ++ tail))
    (ihfirst : Covers category first) (ihmore : Covers next more)
    (h : (skip category (first ++ (more ++ tail))).bind (skip next) = some rest) :
    rest <:+ tail := by
  by_cases hmore : more = []
  · subst hmore
    obtain ⟨after, hskip, hafter⟩ := Option.bind_eq_some_iff.mp h
    exact (suffix_of_skip hafter).trans (ihfirst tail after hskip)
  · rw [skip_append hfirst (hends hmore)] at h
    exact ihmore tail rest h

theorem suffix_of_eq_tail {category : Category} {words tail rest : List Word}
    (htail : skip category words = some tail) (h : skip category words = some rest) :
    rest <:+ tail :=
  Option.some.inj (htail.symm.trans h) ▸ List.suffix_rfl

/-- The greedy choice never cuts off a longer phrase: by induction on the phrase, with the case of
each rule following the equation of its recogniser. -/
theorem covers_of_derives {category : Category} {phrase : List Word}
    (h : Derives .all category phrase) : Covers category phrase := by
  induction h with
  | expression hfirst hmore ihfirst ihmore =>
    intro tail rest hskip
    rw [skip_expression, List.append_assoc] at hskip
    exact suffix_of_bind hfirst
      (fun hne ↦ endsOperand_of_begins (begins_of_derives hmore) hne tail) ihfirst ihmore hskip
  | noMore => exact fun tail rest hskip ↦ suffix_of_skip hskip
  | oneMore hbinary hfirst hmore ihfirst ihmore =>
    intro tail rest hskip
    rw [List.cons_append, skip_moreOperands_cons, if_pos hbinary, List.append_assoc] at hskip
    exact suffix_of_bind hfirst
      (fun hne ↦ endsOperand_of_begins (begins_of_derives hmore) hne tail) ihfirst ihmore hskip
  | signed hsign _ ih =>
    intro tail rest hskip
    rw [List.cons_append, skip_operand_cons, if_pos hsign] at hskip
    exact ih tail rest hskip
  | unsigned hvalue hafter ihvalue ihafter =>
    intro tail rest hskip
    obtain ⟨first, values, hfirst, -, hunsigned⟩ := begins_of_derives hvalue
    rw [List.append_assoc, hfirst, List.cons_append, skip_operand_cons, if_neg hunsigned,
      ← List.cons_append, ← hfirst] at hskip
    exact suffix_of_bind hvalue
      (fun hne ↦ ends_primary_of_begins (begins_of_derives hafter) hne tail) ihvalue ihafter hskip
  | literal hkind =>
    intro tail rest hskip
    rw [List.singleton_append, skip_primary_cons] at hskip
    rcases hkind with hkind | hkind | hkind <;> rw [hkind] at hskip <;>
      exact Option.some.inj hskip ▸ List.suffix_rfl
  | name hkind =>
    intro tail rest hskip
    rw [List.singleton_append, skip_primary_cons, hkind] at hskip
    exact suffix_of_skipOptional hskip
  | call hkind hvalues ih =>
    intro tail rest hskip
    rw [List.cons_append, skip_primary_cons] at hskip
    rcases hkind with hkind | hkind <;> rw [hkind] at hskip
    · have hoptional := skipOptional_arguments (begins_of_derives hvalues) tail
      exact ih tail rest (hoptional.symm.trans hskip)
    · exact ih tail rest hskip
  | @group opening closing inner hopening hinner hclosing _ =>
    intro tail rest hskip
    have hexpression : skip .expression (inner ++ closing :: tail) = some (closing :: tail) :=
      skip_append hinner (ends_expression_delimiter (Or.inl hclosing))
    rw [List.cons_append, skip_primary_cons, hopening, List.append_assoc, List.singleton_append,
      hexpression] at hskip
    have hrest : skipKind .closing (closing :: tail) = some rest := hskip
    rw [skipKind, if_pos hclosing] at hrest
    exact Option.some.inj hrest ▸ List.suffix_rfl
  | noSuffix => exact fun tail rest hskip ↦ suffix_of_skip hskip
  | @member dot name after hdot hmember hafter ih =>
    intro tail rest hskip
    rw [List.cons_append, List.cons_append, skip_suffixes_cons_cons, if_pos hdot,
      if_pos hmember] at hskip
    -- An argument list may follow the member in the words without being part of the phrase.
    by_cases hne : after = []
    · subst hne
      obtain ⟨left, hoptional, hleft⟩ := Option.bind_eq_some_iff.mp hskip
      exact (suffix_of_skip hleft).trans (suffix_of_skipOptional hoptional)
    · rw [skipOptional_of_ends
        (ends_primary_of_begins (begins_of_derives hafter) hne tail)] at hskip
      exact ih tail rest hskip
  | memberCall _ hdot hmember hvalues _ _ ihafter =>
    intro tail rest hskip
    rw [List.cons_append, List.cons_append, skip_suffixes_cons_cons, if_pos hdot, if_pos hmember,
      List.append_assoc, skipOptional_arguments (begins_of_derives hvalues),
      skip_append hvalues trivial] at hskip
    exact ihafter tail rest hskip
  | @cast colon type after _ hcolon htype _ ih =>
    intro tail rest hskip
    have hdot : ¬ colon.kind = .trail := by
      rw [hcolon]
      decide
    rw [List.cons_append, List.cons_append, skip_suffixes_cons_cons, if_neg hdot,
      if_pos ⟨hcolon, htype⟩] at hskip
    exact ih tail rest hskip
  | noArguments hopening hclosing =>
    exact fun tail rest ↦ suffix_of_eq_tail (skip_append (.noArguments hopening hclosing) trivial)
  | arguments hopening hlist _ =>
    exact fun tail rest ↦ suffix_of_eq_tail (skip_append (.arguments hopening hlist) trivial)
  | lastArgument hvalue hclosing _ =>
    exact fun tail rest ↦ suffix_of_eq_tail (skip_append (.lastArgument hvalue hclosing) trivial)
  | oneArgument hvalue hcomma hlist _ _ =>
    exact fun tail rest ↦ suffix_of_eq_tail (skip_append (.oneArgument hvalue hcomma hlist) trivial)

end LineScript.Statement
