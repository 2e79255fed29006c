import LineScript.Proofs.Image.Truncation

/-!
Streams that fail before they end. Reading an image compares two runs over the same bytes, of which
one has a failure at their end and the other nothing: they go along together as long as there are
bytes, and part where more are needed. So a stream that fails gives no image, and the failure is
reported unless the bytes before it are malformed already. Only the first line has to be whole for
that, since a stream that fails may have cut off its mark. Missing cells are an exception: if the
failure is that the bytes ended too early, the image is reported as truncated.
-/

set_option autoImplicit false
set_option relaxedAutoImplicit false

namespace LineScript

open Bytes

/-- What the bytes are blamed for, whatever follows them. -/
def ReadError.IsOfFormat (error : ReadError) : Prop :=
  error.failure.category? = some .format

/-- What is wrong with an image although its bytes are not malformed: some are missing, or it does
not verify. -/
def ReadError.IsOfStructure (error : ReadError) : Prop :=
  error = .truncated ∨ ∃ fault, error = .unverified fault

theorem ReadError.IsOfStructure.category {error : ReadError} (h : error.IsOfStructure) :
    error.failure.category? = some .structural := by
  rcases h with rfl | ⟨fault, rfl⟩
  · rfl
  · cases fault <;> rfl

/-- The results of two runs that have the errors `first` and `second` where bytes are missing, and
are the same otherwise. -/
inductive Alongside (first second : ReadError) {α : Type} :
    Except ReadError α → Except ReadError α → Prop where
  | ended : Alongside first second (.error first) (.error second)
  | malformed {error : ReadError} (h : error.IsOfFormat) :
    Alongside first second (.error error) (.error error)
  | taken (item : α) : Alongside first second (.ok item) (.ok item)

variable {first second : ReadError} {α β : Type}

namespace Alongside

theorem bind {one other : Except ReadError α} {next following : α → Except ReadError β}
    (h : Alongside first second one other)
    (hnext : ∀ item, Alongside first second (next item) (following item)) :
    Alongside first second (one >>= next) (other >>= following) := by
  cases h with
  | ended => exact .ended
  | malformed h => exact .malformed h
  | taken item => exact hnext item

/-- A byte before what both runs take. -/
theorem cons {one other : Except ReadError (Bytes × Bytes)} (byte : UInt8) :
    Alongside first second one other →
      Alongside first second
        (match one with
          | .ok (text, rest) => .ok (byte :: text, rest)
          | .error error => .error error)
        (match other with
          | .ok (text, rest) => .ok (byte :: text, rest)
          | .error error => .error error)
  | ended => .ended
  | malformed h => .malformed h
  | taken _ => .taken _

theorem takeMany {take other : PartReader α}
    (h : ∀ bytes, Alongside first second (take bytes) (other bytes)) (count : Nat) (bytes : Bytes) :
    Alongside first second (takeMany take count bytes) (takeMany other count bytes) := by
  induction count generalizing bytes with
  | zero => exact .taken _
  | succ count ih => exact (h bytes).bind fun item ↦ (ih item.2).bind fun rest ↦ .taken _

end Alongside

/-! ### Parts -/

section Parts

variable (first second : ReadError)

end Parts

/-! ### The line of the version -/

variable {bytes : Bytes} {failure : StreamFailure}

/-- The reader takes exactly so many bytes, whatever they are, and its error is that some of them
are missing. -/
def TakesExactly (take : ReadError → PartReader α) (size : Nat) : Prop :=
  ∀ bytes, (bytes.length < size ∧ ∀ ended, take ended bytes = .error ended) ∨
    size ≤ bytes.length ∧ ∃ item, ∀ ended, take ended bytes = .ok (item, bytes.drop size)

namespace TakesExactly

theorem pure (item : α) : TakesExactly (fun _ bytes ↦ Pure.pure (item, bytes)) 0 :=
  fun _ ↦ Or.inr ⟨Nat.zero_le _, item, fun _ ↦ rfl⟩

theorem bind {take : ReadError → PartReader α}
    {next : ReadError → α × Bytes → Except ReadError (β × Bytes)} {size more : Nat}
    (htake : TakesExactly take size)
    (hnext : ∀ item, TakesExactly (fun ended bytes ↦ next ended (item, bytes)) more) :
    TakesExactly (fun ended bytes ↦ take ended bytes >>= next ended) (size + more) := by
  intro bytes
  rcases htake bytes with ⟨hshort, herror⟩ | ⟨hlong, item, hitem⟩
  · refine Or.inl ⟨Nat.lt_add_right more hshort, fun ended ↦ ?_⟩
    dsimp only
    rw [herror]
    rfl
  · rcases hnext item (bytes.drop size) with ⟨hshort, herror⟩ | ⟨hmore, last, hlast⟩
    · rw [List.length_drop] at hshort
      refine Or.inl ⟨by omega, fun ended ↦ ?_⟩
      dsimp only
      rw [hitem]
      exact herror ended
    · rw [List.length_drop] at hmore
      refine Or.inr ⟨by omega, last, fun ended ↦ ?_⟩
      dsimp only
      rw [hitem, ← List.drop_drop]
      exact hlast ended

theorem map {take : ReadError → PartReader α} {size : Nat} (htake : TakesExactly take size)
    (give : α → β) :
    TakesExactly (fun ended bytes ↦ take ended bytes >>= fun found ↦
      Pure.pure (give found.1, found.2)) size := by
  intro bytes
  rcases htake bytes with ⟨hshort, herror⟩ | ⟨hlong, item, hitem⟩
  · refine Or.inl ⟨hshort, fun ended ↦ ?_⟩
    dsimp only
    rw [herror]
    rfl
  · refine Or.inr ⟨hlong, give item, fun ended ↦ ?_⟩
    dsimp only
    rw [hitem]
    rfl

theorem takeMany {take : ReadError → PartReader α} {size : Nat} (htake : TakesExactly take size)
    (count : Nat) :
    TakesExactly (fun ended ↦ LineScript.takeMany (take ended) count) (count * size) := by
  induction count with
  | zero =>
    rw [Nat.zero_mul]
    exact pure []
  | succ count ih =>
    rw [Nat.succ_mul, Nat.add_comm (count * size)]
    refine htake.bind fun first ↦ ?_
    exact ih.map (first :: ·)

end TakesExactly

section Code

variable {ended : ReadError} {sizes : TableSizes} {tables image : Image} {code rest : Bytes}

end Code

/-! ### Bytes that end in the code -/

end LineScript
