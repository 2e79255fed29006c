import LineScript.Proofs.Builder.Edits

/-!
The lookup maps of a builder and the tables of its image. A constant is entered into a table and
into a map, which are kept apart. The map finds exactly what the table holds, each entry where it
stands, so maps and tables are in bijection. Every single change keeps that, as long as the tables
are not so long that the places, of 32 bits, wrap around.
-/

set_option autoImplicit false
set_option relaxedAutoImplicit false

namespace LineScript

/-- Whether a map finds exactly the items of a table, each at its index. -/
def Indexes {α β : Type} [BEq α] (entries : List (α × β)) (place : β → Nat) (items : List α) :
    Prop :=
  ∀ item index, (entries.lookup item).map place = some index ↔ items[index]? = some item

/-- What stands in a list with one more item. -/
theorem getElem?_append_singleton_eq_some_iff {α : Type} {items : List α} {item other : α}
    {index : Nat} :
    (items ++ [item])[index]? = some other ↔
      items[index]? = some other ∨ (index = items.length ∧ item = other) := by
  rcases Nat.lt_trichotomy index items.length with hlt | rfl | hgt
  · rw [List.getElem?_append_left hlt]
    exact (or_iff_left fun hlast ↦ Nat.ne_of_lt hlt hlast.1).symm
  · rw [List.getElem?_concat_length, List.getElem?_eq_none (Nat.le_refl _)]
    simp
  · rw [List.getElem?_eq_none (Nat.le_of_lt hgt),
      List.getElem?_eq_none (by rw [List.length_append]; exact hgt)]
    simp [Nat.ne_of_gt hgt]

namespace Indexes

variable {α β : Type} [BEq α] {entries : List (α × β)} {place : β → Nat} {items : List α}
  {item : α} {entry : β}

theorem nil : Indexes ([] : List (α × β)) place [] := by
  intro item index
  exact iff_of_false (by rintro ⟨⟩) (by rintro ⟨⟩)

theorem getElem?_of_lookup (h : Indexes entries place items)
    (hentry : entries.lookup item = some entry) : items[place entry]? = some item :=
  (h item (place entry)).mp (by rw [hentry, Option.map_some])

theorem lookup_eq_none_iff (h : Indexes entries place items) :
    entries.lookup item = none ↔ item ∉ items := by
  constructor
  · intro hnone hmem
    obtain ⟨index, hindex⟩ := List.mem_iff_getElem?.mp hmem
    have hfound := (h item index).mpr hindex
    rw [hnone] at hfound
    cases hfound
  · intro hnew
    rw [Option.eq_none_iff_forall_ne_some]
    intro entry hentry
    exact hnew (List.mem_of_getElem? (h.getElem?_of_lookup hentry))

/-- No item stands twice in a table that a map indexes, since the map finds one place for it. -/
theorem nodup (h : Indexes entries place items) : items.Nodup := by
  rw [List.nodup_iff_getElem?_ne_getElem?]
  intro first second hlt hlength hsame
  have hitem := List.getElem?_eq_getElem hlength
  have hfirst := (h _ first).mpr (hsame.trans hitem)
  have hsecond := (h _ second).mpr hitem
  rw [hfirst] at hsecond
  exact Nat.ne_of_lt hlt (Option.some.inj hsecond)

/-- A new item is put at the end of the table and into the map with its index there. -/
theorem add [LawfulBEq α] (h : Indexes entries place items) (hnew : entries.lookup item = none)
    (hplace : place entry = items.length) :
    Indexes ((item, entry) :: entries) place (items ++ [item]) := by
  intro other index
  rw [getElem?_append_singleton_eq_some_iff, ← h other index, List.lookup_cons]
  by_cases hother : other = item
  · subst hother
    rw [beq_self_eq_true, hnew]
    simp [hplace, eq_comm]
  · rw [beq_false_of_ne hother]
    simp [Ne.symm hother]

end Indexes

namespace Builder

/-- The maps of a builder are in bijection with the tables of its image, and the references that are
kept for storage refer to storage. -/
structure Indexed (builder : Builder) : Prop where
  numberPlaces : Indexes builder.numberPlaces UInt32.toNat (builder.image.numbers.map Number.bits)
  textPlaces : Indexes builder.textPlaces UInt32.toNat builder.image.texts
  storageRefs : Indexes builder.storageRefs (fun ref ↦ ref.value.toNat) builder.image.storage
  storageCodes : ∀ entry ∈ builder.storageRefs,
    ∃ arity type, entry.2.code = (Tag.storage arity type).code

section Numbers

variable {builder : Builder} {value : Number}

/-- A number is found where it stands, with all its bits. -/
theorem Indexed.lookup_bits_iff (h : builder.Indexed) {index : Nat} :
    (builder.numberPlaces.lookup value.bits).map UInt32.toNat = some index ↔
      builder.image.numbers[index]? = some value := by
  rw [h.numberPlaces value.bits index, List.getElem?_map, Option.map_eq_some_iff]
  constructor
  · rintro ⟨⟨bits⟩, hnumber, rfl⟩
    exact hnumber
  · intro hnumber
    exact ⟨value, hnumber, rfl⟩

theorem Indexed.notMem_numbers (h : builder.Indexed)
    (hnew : builder.numberPlaces.lookup value.bits = none) : value ∉ builder.image.numbers :=
  fun hmem ↦ h.numberPlaces.lookup_eq_none_iff.mp hnew (List.mem_map_of_mem hmem)

theorem Indexed.nodup_numbers (h : builder.Indexed) : builder.image.numbers.Nodup :=
  h.numberPlaces.nodup.of_map _

end Numbers

/-- A place of 32 bits is the place in a table that fits the format. -/
theorem toNat_ofNat_length {α : Type} {items : List α} (h : items.length ≤ maxCount) :
    (UInt32.ofNat items.length).toNat = items.length := by
  rw [UInt32.toNat_ofNat']
  unfold maxCount maxValue at h
  omega

theorem Indexed.edit {builder next : Builder} (hedit : Edit builder next) (h : builder.Indexed)
    (hnumbers : builder.image.numbers.length ≤ maxCount)
    (htexts : builder.image.texts.length ≤ maxCount)
    (hstorage : builder.image.storage.length ≤ maxCount) : next.Indexed := by
  cases hedit with
  | @number value hnew hroom =>
    have hplaces := h.numberPlaces.add hnew
      (by rw [List.length_map]; exact toNat_ofNat_length hnumbers)
    refine { h with numberPlaces := ?_ }
    change Indexes _ _ (List.map Number.bits (builder.image.numbers ++ [value]))
    rw [List.map_append]
    exact hplaces
  | text hnew hlength hzero hroom =>
    exact { h with textPlaces := h.textPlaces.add hnew (toNat_ofNat_length htexts) }
  | @storage name arity type hname hnew hroom =>
    refine { h with
      storageRefs := h.storageRefs.add hnew (toNat_ofNat_length hstorage), storageCodes := ?_ }
    exact List.forall_mem_cons.mpr ⟨⟨arity, type, rfl⟩, h.storageCodes⟩
  | @append codeSection cell hfits hroom => cases codeSection <;> exact { h with }
  | @patch codeSection address cell hfits => cases codeSection <;> exact { h with }
  | slot hroom => exact { h with }
  | function hname hnew => exact { h with }
  | mark file line => exact { h with }

theorem Indexed.empty : Indexed {} where
  numberPlaces := .nil
  textPlaces := .nil
  storageRefs := .nil
  storageCodes := List.forall_mem_nil _

end Builder

end LineScript
