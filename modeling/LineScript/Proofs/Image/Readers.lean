import LineScript.Image.Reader

/-!
What the readers of the parts of an image have in common. `Gives` states what holds of everything
that a reader takes, and `Sequential` that a reader uses up a beginning of its bytes, without
looking further, and misses what is not there. Both hold of readers put one after the other when
they hold of each.
-/

set_option autoImplicit false
set_option relaxedAutoImplicit false

namespace LineScript

open Bytes

/-- A reader of a part: what it takes off the front of its bytes, and the bytes after it. -/
abbrev PartReader (α : Type) := Bytes → Except ReadError (α × Bytes)

section

variable {α β : Type}

theorem exists_of_bind_eq_ok {ε : Type} {value : Except ε α} {next : α → Except ε β} {result : β}
    (h : value >>= next = .ok result) : ∃ item, value = .ok item ∧ next item = .ok result := by
  cases value with
  | error error => cases h
  | ok item => exact ⟨item, rfl, h⟩

/-! ### What a reader gives -/

/-- Everything that the reader takes has the property. -/
def Gives (take : PartReader α) (property : α → Prop) : Prop :=
  ∀ bytes item rest, take bytes = .ok (item, rest) → property item

namespace Gives

variable {take : PartReader α} {property : α → Prop} {result : β → Prop}

theorem trivial (take : PartReader α) : Gives take fun _ ↦ True :=
  fun _ _ _ _ ↦ True.intro

theorem pure {item : α} (h : property item) :
    Gives (fun bytes ↦ Pure.pure (item, bytes)) property := by
  intro bytes other rest hread
  cases hread
  exact h

theorem error (error : ReadError) : Gives (fun _ ↦ .error error) property := by
  intro bytes item rest hread
  cases hread

/-- A check between two readers, which takes no bytes. -/
theorem check {value : Except ReadError α} {next : α → PartReader β}
    (h : ∀ item, value = .ok item → Gives (next item) result) :
    Gives (fun bytes ↦ value >>= fun item ↦ next item bytes) result := by
  intro bytes last rest hread
  obtain ⟨item, hvalue, hnext⟩ := exists_of_bind_eq_ok hread
  exact h item hvalue bytes last rest hnext

theorem bind {next : α × Bytes → Except ReadError (β × Bytes)} (htake : Gives take property)
    (hnext : ∀ item, property item → Gives (fun bytes ↦ next (item, bytes)) result) :
    Gives (fun bytes ↦ take bytes >>= next) result := by
  intro bytes last rest hread
  obtain ⟨⟨item, middle⟩, hitem, hlast⟩ := exists_of_bind_eq_ok hread
  exact hnext item (htake bytes item middle hitem) middle last rest hlast

theorem takeMany (htake : Gives take property) (count : Nat) :
    Gives (takeMany take count) fun items ↦
      items.length = count ∧ ∀ item ∈ items, property item := by
  induction count with
  | zero => exact pure ⟨rfl, by simp⟩
  | succ count ih =>
    refine htake.bind fun first hfirst ↦ ih.bind fun rest hrest ↦ pure ⟨?_, ?_⟩
    · rw [List.length_cons, hrest.1]
    · exact List.forall_mem_cons.mpr ⟨hfirst, hrest.2⟩

end Gives

/-! ### Readers that use up their bytes from the front -/

/-- The reader takes `item` from exactly the bytes `used`: it does so whatever follows them, and it
has the error `ended` when some of them are missing. -/
structure UsesUp (ended : ReadError) (take : PartReader α) (used : Bytes) (item : α) : Prop where
  whole : ∀ more, take (used ++ more) = .ok (item, more)
  cutShort : ∀ part missing, used = part ++ missing → missing ≠ [] → take part = .error ended

/-- What the reader takes, it takes from a beginning of its bytes. -/
def Sequential (ended : ReadError) (take : PartReader α) : Prop :=
  ∀ bytes item rest, take bytes = .ok (item, rest) →
    ∃ used, bytes = used ++ rest ∧ UsesUp ended take used item

variable {ended : ReadError}

/-- A part of one byte. -/
theorem UsesUp.single {take : PartReader α} {byte : UInt8} {item : α}
    (hnil : take [] = .error ended) (hcons : ∀ more, take (byte :: more) = .ok (item, more)) :
    UsesUp ended take [byte] item := by
  refine ⟨hcons, ?_⟩
  intro part missing hparts hmissing
  rcases List.cons_eq_append_iff.mp hparts with ⟨rfl, -⟩ | ⟨begun, rfl, hbegun⟩
  · exact hnil
  · exact absurd (List.append_eq_nil_iff.mp hbegun.symm).2 hmissing

/-- A part whose first byte only adds to what is taken from the others. -/
theorem UsesUp.cons {take : PartReader α} {next : PartReader β} {byte : UInt8} {used : Bytes}
    {item : β} {added : α} (hnil : take [] = .error ended)
    (hok : ∀ bytes rest, next bytes = .ok (item, rest) → take (byte :: bytes) = .ok (added, rest))
    (herror : ∀ bytes error, next bytes = .error error → take (byte :: bytes) = .error error)
    (hnext : UsesUp ended next used item) : UsesUp ended take (byte :: used) added := by
  refine ⟨fun more ↦ hok _ _ (hnext.whole more), ?_⟩
  intro part missing hparts hmissing
  rcases List.cons_eq_append_iff.mp hparts with ⟨rfl, -⟩ | ⟨begun, rfl, hbegun⟩
  · exact hnil
  · exact herror _ _ (hnext.cutShort begun missing hbegun hmissing)

/-- One part after the other. Bytes that end in the first part are missed by the first reader, and
bytes that end right after it, or later, by the second. -/
theorem UsesUp.bind {take : PartReader α} {next : α × Bytes → Except ReadError (β × Bytes)}
    {first second : Bytes} {item : α} {last : β} (hfirst : UsesUp ended take first item)
    (hsecond : UsesUp ended (fun bytes ↦ next (item, bytes)) second last) :
    UsesUp ended (fun bytes ↦ take bytes >>= next) (first ++ second) last := by
  constructor
  · intro more
    rw [List.append_assoc, hfirst.whole]
    exact hsecond.whole more
  · intro part missing hparts hmissing
    have hlater : ∀ begun, second = begun ++ missing →
        take (first ++ begun) >>= next = .error ended := by
      intro begun hbegun
      rw [hfirst.whole]
      exact hsecond.cutShort begun missing hbegun hmissing
    rcases List.append_eq_append_iff.mp hparts with ⟨begun, rfl, hbegun⟩ | ⟨lost, hlost, hrest⟩
    · exact hlater begun hbegun
    · by_cases hnone : lost = []
      · subst hnone
        rw [List.append_nil] at hlost
        rw [← hlost, ← List.append_nil first]
        exact hlater [] hrest.symm
      · rw [hfirst.cutShort part lost hlost hnone]
        rfl

namespace Sequential

variable {take : PartReader α}

theorem pure (item : α) : Sequential ended fun bytes ↦ Pure.pure (item, bytes) := by
  intro bytes other rest hread
  cases hread
  refine ⟨[], rfl, fun more ↦ rfl, ?_⟩
  intro part missing hparts hmissing
  exact absurd (List.append_eq_nil_iff.mp hparts.symm).2 hmissing

theorem error (error : ReadError) :
    Sequential ended fun _ ↦ (.error error : Except ReadError (α × Bytes)) := by
  intro bytes item rest hread
  cases hread

/-- A check between two readers, which takes no bytes. -/
theorem check {value : Except ReadError α} {next : α → PartReader β}
    (h : ∀ item, Sequential ended (next item)) :
    Sequential ended fun bytes ↦ value >>= fun item ↦ next item bytes := by
  cases value with
  | error error => exact Sequential.error error
  | ok item => exact h item

theorem bind {next : α × Bytes → Except ReadError (β × Bytes)} (htake : Sequential ended take)
    (hnext : ∀ item, Sequential ended fun bytes ↦ next (item, bytes)) :
    Sequential ended fun bytes ↦ take bytes >>= next := by
  intro bytes last rest hread
  obtain ⟨⟨item, middle⟩, hitem, hlast⟩ := exists_of_bind_eq_ok hread
  obtain ⟨first, rfl, hfirst⟩ := htake bytes item middle hitem
  obtain ⟨second, rfl, hsecond⟩ := hnext item middle last rest hlast
  exact ⟨first ++ second, (List.append_assoc _ _ _).symm, hfirst.bind hsecond⟩

theorem takeMany (htake : Sequential ended take) (count : Nat) :
    Sequential ended (takeMany take count) := by
  induction count with
  | zero => exact pure []
  | succ count ih => exact htake.bind fun first ↦ ih.bind fun rest ↦ pure _

end Sequential

end

end LineScript
