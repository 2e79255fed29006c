import LineScript.Proofs.Builder.Calls

/-!
Interning. The grants of a run are the operands that its steps were given references for, in order.
The tables of a builder depend on them only: the numbers and texts are those granted, each where it
first came, and the storage names are those granted. Equal constants have the same reference and
different ones have different references, while each storage variable and each slot of a class has
a place of its own. The maps are in bijection with the tables and give the references that were
granted. A reference stands for the same operand whatever steps follow.
-/

set_option autoImplicit false
set_option relaxedAutoImplicit false

namespace LineScript

open Bytes

namespace Grant

/-- The number that is granted, if it is one. -/
def number? (grant : Grant) : Option Number :=
  match grant.operand with
  | .number number => some number
  | _ => none

/-- The text that is granted, if it is one. -/
def text? (grant : Grant) : Option Bytes :=
  match grant.operand with
  | .text text => some text
  | _ => none

/-- The storage variable or array that is granted, if it is one. -/
def storageName? (grant : Grant) : Option Bytes :=
  match grant.operand with
  | .storage name _ _ => some name
  | _ => none

end Grant

/-- Whether two operands are numbered in one row: storage variables and arrays of all types, and the
slots of one class. -/
inductive Operand.Shares : Operand → Operand → Prop where
  | storage (first second : Bytes) (arity other : Arity) (type another : ValueType) :
      Shares (.storage first arity type) (.storage second other another)
  | slot (ramClass : RamClass) : Shares (.slot ramClass) (.slot ramClass)

/-! ### Tables -/

namespace Pools

/-- The tables after grants. -/
def after (pools : Pools) (grants : List Grant) : Pools :=
  grants.foldl (fun pools grant ↦ pools.enter grant.operand) pools

variable {pools : Pools} {operand other : Operand} {index : Nat}

theorem after_append (pools : Pools) (first second : List Grant) :
    pools.after (first ++ second) = (pools.after first).after second :=
  List.foldl_append

theorem toNat_size_grow {ram : RamSizes} {ramClass : RamClass}
    (h : (ram.size ramClass).toNat ≤ maxValue) (same : RamClass) :
    ((ram.grow ramClass).size same).toNat =
      (ram.size same).toNat + if same = ramClass then 1 else 0 := by
  rw [Builder.size_grow]
  split_ifs with hsame
  · rw [hsame, UInt32.toNat_add, UInt32.toNat_one]
    unfold maxValue at h
    omega
  · rfl

/-- An operand stands where its place was before it was entered. -/
theorem holds_enter_place (hroom : pools.place operand ≤ maxValue) :
    (pools.enter operand).Holds (pools.place operand) operand := by
  cases operand with
  | number number => exact getElem?_idxOf_addNew pools.numbers number
  | text text => exact getElem?_idxOf_addNew pools.texts text
  | storage name arity type => exact List.getElem?_concat_length
  | slot ramClass =>
    change (pools.ram.size ramClass).toNat < ((pools.ram.grow ramClass).size ramClass).toNat
    rw [toNat_size_grow hroom, if_pos rfl]
    exact Nat.lt_succ_self _

/-- Entering an operand moves no other. -/
theorem Holds.enter (h : pools.Holds index operand) (hroom : pools.place other ≤ maxValue) :
    (pools.enter other).Holds index operand := by
  cases other with
  | number number =>
    cases operand with
    | number own => exact getElem?_addNew h
    | _ => exact h
  | text text =>
    cases operand with
    | text own => exact getElem?_addNew h
    | _ => exact h
  | storage name arity type =>
    cases operand with
    | storage own _ _ =>
      exact (List.getElem?_append_left (List.getElem?_eq_some_iff.mp h).1).trans h
    | _ => exact h
  | slot ramClass =>
    cases operand with
    | slot own =>
      change index < ((pools.ram.grow ramClass).size own).toNat
      rw [toNat_size_grow hroom]
      exact Nat.lt_add_right _ h
    | _ => exact h

theorem Denotes.enter {ref : Cell} (h : pools.Denotes ref operand)
    (hroom : pools.place other ≤ maxValue) : (pools.enter other).Denotes ref operand :=
  ⟨h.1, h.2.enter hroom⟩

theorem place_eq_of_shares (h : operand.Shares other) :
    pools.place operand = pools.place other := by
  cases h <;> rfl

/-- What is entered takes up one place of its row. -/
theorem place_enter_of_shares (h : operand.Shares other) (hroom : pools.place operand ≤ maxValue) :
    (pools.enter operand).place other = pools.place operand + 1 := by
  cases h with
  | storage first second arity other type another => exact List.length_append
  | slot ramClass =>
    change ((pools.ram.grow ramClass).size ramClass).toNat = (pools.ram.size ramClass).toNat + 1
    rw [toNat_size_grow hroom, if_pos rfl]

/-- The rows only grow. -/
theorem place_le_enter {same : Operand} (h : operand.Shares same)
    (hroom : pools.place other ≤ maxValue) :
    pools.place operand ≤ (pools.enter other).place operand := by
  cases h with
  | storage first second arity another type last =>
    cases other with
    | storage name arity type =>
      change pools.storage.length ≤ (pools.storage ++ [name]).length
      rw [List.length_append]
      exact Nat.le_add_right _ _
    | _ => exact Nat.le_refl _
  | slot ramClass =>
    cases other with
    | slot grown =>
      change (pools.ram.size ramClass).toNat ≤ ((pools.ram.grow grown).size ramClass).toNat
      rw [toNat_size_grow hroom]
      exact Nat.le_add_right _ _
    | _ => exact Nat.le_refl _

end Pools

/-! ### Order -/

section AddNew

variable {α : Type} [BEq α] [LawfulBEq α]

theorem addNew_eraseDups (items : List α) (item : α) :
    addNew items.eraseDups item = (items ++ [item]).eraseDups := by
  rw [List.eraseDups_append, List.removeAll]
  by_cases hmem : item ∈ items
  · rw [addNew_of_mem (List.mem_eraseDups.mpr hmem)]
    simp [hmem]
  · rw [addNew_of_notMem (mt List.mem_eraseDups.mp hmem)]
    simp [hmem, List.eraseDups_cons]

/-- Items that are added one by one stand in the order in which they first came. -/
theorem foldl_addNew (items : List α) : items.foldl addNew [] = items.eraseDups := by
  induction items using List.reverseRecOn with
  | nil => rfl
  | append_singleton items item ih =>
    rw [List.foldl_append, ih, List.foldl_cons, List.foldl_nil, addNew_eraseDups]

end AddNew

namespace Pools

/-- A table to which each grant adds what it grants of one kind holds all that was granted of that
kind. -/
theorem table_after {α : Type} (table : Pools → List α) (granted : Grant → Option α)
    (add : List α → α → List α)
    (hadd : ∀ pools grant,
      table (enter pools grant.operand) = (granted grant).toList.foldl add (table pools))
    (pools : Pools) (log : List Grant) :
    table (pools.after log) = (log.filterMap granted).foldl add (table pools) := by
  induction log generalizing pools with
  | nil => rfl
  | cons grant rest ih =>
    refine (ih (pools.enter grant.operand)).trans ?_
    rw [hadd, List.filterMap_cons]
    cases granted grant <;> rfl

theorem numbers_after (log : List Grant) :
    (({} : Pools).after log).numbers = (log.filterMap Grant.number?).eraseDups := by
  rw [← foldl_addNew]
  refine table_after numbers Grant.number? addNew ?_ {} log
  rintro pools ⟨_ | _ | _ | _, ref⟩ <;> rfl

theorem texts_after (log : List Grant) :
    (({} : Pools).after log).texts = (log.filterMap Grant.text?).eraseDups := by
  rw [← foldl_addNew]
  refine table_after texts Grant.text? addNew ?_ {} log
  rintro pools ⟨_ | _ | _ | _, ref⟩ <;> rfl

theorem storage_after (log : List Grant) :
    (({} : Pools).after log).storage = log.filterMap Grant.storageName? := by
  have hfold : ∀ names : List Bytes,
      names.foldl (fun before name ↦ before ++ [name]) [] = names := by
    intro names
    rw [List.foldl_append_eq_append, List.nil_append, ← List.flatMap_def, List.flatMap_singleton']
  rw [← hfold (log.filterMap Grant.storageName?)]
  refine table_after storage Grant.storageName? _ ?_ {} log
  rintro pools ⟨_ | _ | _ | _, ref⟩ <;> rfl

end Pools

/-! ### Steps and runs -/

namespace Builder

/-- What the steps of a run grant, in order. -/
def grants (builder : Builder) : List BuildStep → List Grant
  | [] => []
  | step :: rest => (builder.grant? step).toList ++ grants (builder.perform step).2 rest

section Runs

variable {builder next : Builder} {step : BuildStep} {steps : List BuildStep} {grant : Grant}

theorem performAll_append (builder : Builder) (first second : List BuildStep) :
    builder.performAll (first ++ second) = (builder.performAll first).performAll second :=
  List.foldl_append

theorem Sound.perform (h : builder.Sound) (step : BuildStep) : (builder.perform step).2.Sound :=
  h.performAll [step]

theorem Enters.pools_eq {operand : Operand} {ref : Cell} (h : builder.Enters operand ref next) :
    next.image.pools = builder.image.pools.enter operand := by
  rw [h.next_eq, image_enter]
  rfl

/-- The reference that a call gives stands for its operand. -/
theorem Enters.denotes {operand : Operand} {ref : Cell} (h : builder.Enters operand ref next) :
    next.image.pools.Denotes ref operand := by
  refine ⟨h.code, ?_⟩
  rw [h.pools_eq, h.value]
  exact Pools.holds_enter_place h.room

theorem Marks.pools_eq (h : Marks builder next) : next.image.pools = builder.image.pools := by
  obtain ⟨cells, file, line, -, rfl⟩ := h
  rfl

/-- A step enters what it grants and leaves the tables alone otherwise. -/
theorem Effect.pools_eq {given : Option Cell} {grant : Option Grant}
    (h : Effect builder step given grant next) :
    next.image.pools = builder.image.pools.after grant.toList := by
  cases h with
  | fail => rfl
  | enter hoperand henters => exact henters.pools_eq
  | emit hemit =>
    obtain ⟨-, rfl⟩ := emit_eq_ok hemit
    exact pools_setCode _ _ _
  | patch hpatch =>
    obtain ⟨old, -, -, rfl⟩ := patch_eq_ok hpatch
    exact pools_setCode _ _ _
  | function hfunction =>
    obtain ⟨functions, -, rfl⟩ := function_eq_ok hfunction
    rfl
  | mark hmarks => exact hmarks.pools_eq
  | nameFile henters hmarks => exact hmarks.pools_eq.trans henters.pools_eq

theorem Effect.exists_enters {given : Option Cell}
    (h : Effect builder step given (some grant) next) :
    ∃ middle, builder.Enters grant.operand grant.ref middle := by
  cases h with
  | enter hoperand henters => exact ⟨_, henters⟩
  | nameFile henters hmarks => exact ⟨_, henters⟩

theorem pools_perform (hsound : builder.Sound) (step : BuildStep) :
    (builder.perform step).2.image.pools =
      builder.image.pools.after (builder.grant? step).toList :=
  (effect_perform hsound step).pools_eq

/-- What a step grants gets its place in the tables before the step, and is entered there. -/
theorem enters_of_grant? (hsound : builder.Sound) (h : builder.grant? step = some grant) :
    ∃ middle, builder.Enters grant.operand grant.ref middle ∧
      (builder.perform step).2.image.pools = middle.image.pools := by
  have heffect := effect_perform hsound step
  rw [h] at heffect
  obtain ⟨middle, henters⟩ := heffect.exists_enters
  exact ⟨middle, henters, heffect.pools_eq.trans henters.pools_eq.symm⟩

/-- What entering an operand keeps of the tables, every step keeps. -/
theorem perform_of_enter (property : Pools → Prop) (hsound : builder.Sound)
    (henter : ∀ operand, builder.image.pools.place operand ≤ maxValue →
      property (builder.image.pools.enter operand))
    (h : property builder.image.pools) (step : BuildStep) :
    property (builder.perform step).2.image.pools := by
  cases hgrant : builder.grant? step with
  | none =>
    rw [pools_perform hsound, hgrant]
    exact h
  | some grant =>
    obtain ⟨middle, henters, hpools⟩ := enters_of_grant? hsound hgrant
    rw [hpools, henters.pools_eq]
    exact henter grant.operand henters.room

theorem pools_performAll (hsound : builder.Sound) (steps : List BuildStep) :
    (builder.performAll steps).image.pools = builder.image.pools.after (builder.grants steps) := by
  induction steps generalizing builder with
  | nil => rfl
  | cons step rest ih =>
    rw [grants, Pools.after_append, ← pools_perform hsound]
    exact ih (hsound.perform step)

/-! ### What references stand for -/

/-- A reference stands for the same operand after any steps, those that fail included. -/
theorem denotes_performAll (hsound : builder.Sound) {ref : Cell} {operand : Operand}
    (h : builder.image.pools.Denotes ref operand) (steps : List BuildStep) :
    (builder.performAll steps).image.pools.Denotes ref operand := by
  induction steps generalizing builder with
  | nil => exact h
  | cons step rest ih =>
    have hstep := perform_of_enter (·.Denotes ref operand) hsound (fun _ hroom ↦ h.enter hroom)
      h step
    exact ih (hsound.perform step) hstep

theorem denotes_of_mem_grants (hsound : builder.Sound) (h : grant ∈ builder.grants steps) :
    (builder.performAll steps).image.pools.Denotes grant.ref grant.operand := by
  induction steps generalizing builder with
  | nil => cases h
  | cons step rest ih =>
    rw [grants, List.mem_append, Option.mem_toList] at h
    rcases h with hstep | hrest
    · obtain ⟨middle, henters, hpools⟩ := enters_of_grant? hsound hstep
      exact denotes_performAll (hsound.perform step) (hpools ▸ henters.denotes) rest
    · exact ih (hsound.perform step) hrest

/-! ### Places -/

/-- What is granted later in a row has a place from the end of that row on. -/
theorem place_le_value (hsound : builder.Sound) (h : grant ∈ builder.grants steps)
    {operand : Operand} (hshares : operand.Shares grant.operand) :
    builder.image.pools.place operand ≤ grant.ref.value.toNat := by
  induction steps generalizing builder with
  | nil => cases h
  | cons step rest ih =>
    rw [grants, List.mem_append, Option.mem_toList] at h
    rcases h with hstep | hrest
    · obtain ⟨middle, henters, -⟩ := enters_of_grant? hsound hstep
      rw [henters.value, Pools.place_eq_of_shares hshares]
    · have hgrows := perform_of_enter (builder.image.pools.place operand ≤ ·.place operand) hsound
        (fun _ hroom ↦ Pools.place_le_enter hshares hroom) (Nat.le_refl _) step
      exact Nat.le_trans hgrows (ih (hsound.perform step) hrest)

/-- No two storage variables or arrays, and no two slots of a class, have the same place. -/
theorem pairwise_grants (hsound : builder.Sound) (steps : List BuildStep) :
    (builder.grants steps).Pairwise fun first second ↦
      first.operand.Shares second.operand → first.ref.value ≠ second.ref.value := by
  induction steps generalizing builder with
  | nil => exact .nil
  | cons step rest ih =>
    have hrest := ih (hsound.perform step)
    rw [grants]
    cases hgrant : builder.grant? step with
    | none => exact hrest
    | some grant =>
      refine List.pairwise_cons.mpr ⟨?_, hrest⟩
      intro later hlater hshares hsame
      obtain ⟨middle, henters, hpools⟩ := enters_of_grant? hsound hgrant
      -- the row ends one place after the first grant, and the later one lies beyond
      have hle := place_le_value (hsound.perform step) hlater hshares
      rw [hpools, henters.pools_eq, Pools.place_eq_of_shares hshares,
        Pools.place_enter_of_shares hshares henters.room, ← henters.value, hsame] at hle
      exact Nat.not_succ_le_self _ hle

end Runs

/-! ### Maps -/

/-- Whether the maps give a reference for an operand. Slots are in no map. -/
def Finds (builder : Builder) (ref : Cell) : Operand → Prop
  | .number value => builder.numberPlaces.lookup value.bits = some ref.value
  | .text value => builder.textPlaces.lookup value = some ref.value
  | .storage name _ _ => builder.storageRefs.lookup name = some ref
  | .slot _ => True

section Maps

variable {builder next : Builder} {operand : Operand} {ref : Cell}

/-- What is found is still found once something new is put into the map. -/
theorem lookup_cons_of_new {α β : Type} [BEq α] [LawfulBEq α] {entries : List (α × β)}
    {item other : α} {entry found : β} (hnew : entries.lookup item = none)
    (h : entries.lookup other = some found) :
    ((item, entry) :: entries).lookup other = some found := by
  have hne : other ≠ item := by
    rintro rfl
    rw [hnew] at h
    cases h
  rw [List.lookup_cons, beq_false_of_ne hne]
  exact h

theorem Finds.edit (hedit : Edit builder next) (h : builder.Finds ref operand) :
    next.Finds ref operand := by
  cases hedit with
  | number hnew hroom =>
    cases operand with
    | number value => exact lookup_cons_of_new hnew h
    | _ => exact h
  | text hnew hlength hzero hroom =>
    cases operand with
    | text value => exact lookup_cons_of_new hnew h
    | _ => exact h
  | storage hname hnew hroom =>
    cases operand with
    | storage name arity type => exact lookup_cons_of_new hnew h
    | _ => exact h
  | @append codeSection cell hfits hroom => cases codeSection <;> cases operand <;> exact h
  | @patch codeSection address cell hfits => cases codeSection <;> cases operand <;> exact h
  | slot hroom => cases operand <;> exact h
  | function hname hnew => cases operand <;> exact h
  | mark file line => cases operand <;> exact h

theorem Finds.performAll (h : builder.Finds ref operand) (steps : List BuildStep) :
    (builder.performAll steps).Finds ref operand :=
  performAll_induction Finds.edit builder h steps

theorem eq_some_of_map_toNat {found : Option UInt32} {place : UInt32}
    (h : found.map UInt32.toNat = some place.toNat) : found = some place := by
  obtain ⟨same, rfl, hsame⟩ := Option.map_eq_some_iff.mp h
  rw [UInt32.toNat_inj.mp hsame]

/-- A constant is found by any reference that stands for it. -/
theorem Indexed.finds_text (h : builder.Indexed) {value : Bytes}
    (hdenotes : builder.image.pools.Denotes ref (.text value)) :
    builder.Finds ref (.text value) :=
  eq_some_of_map_toNat ((h.textPlaces value _).mpr hdenotes.2)

theorem Indexed.finds_number (h : builder.Indexed) {value : Number}
    (hdenotes : builder.image.pools.Denotes ref (.number value)) :
    builder.Finds ref (.number value) :=
  eq_some_of_map_toNat (h.lookup_bits_iff.mpr hdenotes.2)

theorem Enters.finds (h : builder.Enters operand ref next) (hnext : next.Indexed) :
    next.Finds ref operand := by
  cases operand with
  | number value => exact hnext.finds_number h.denotes
  | text value => exact hnext.finds_text h.denotes
  | storage name arity type =>
    have href : ref = .of (.storage arity type) (UInt32.ofNat builder.image.storage.length) := by
      obtain ⟨code, value⟩ := ref
      obtain rfl : code = (Tag.storage arity type).code := h.code
      have hvalue : value.toNat = builder.image.storage.length := h.value
      rw [← hvalue, UInt32.ofNat_toNat]
      rfl
    rw [h.next_eq, href]
    exact List.lookup_cons_self
  | slot ramClass => trivial

/-- After a step the maps give the reference that it granted. -/
theorem Effect.finds {step : BuildStep} {given : Option Cell} {grant : Grant}
    (h : Effect builder step given (some grant) next) (hnext : next.Indexed) :
    next.Finds grant.ref grant.operand := by
  cases h with
  | enter hoperand henters => exact henters.finds hnext
  | nameFile henters hmarks => exact hnext.finds_text (hmarks.pools_eq ▸ henters.denotes)

theorem finds_of_mem_grants {steps : List BuildStep} {grant : Grant} (hsound : builder.Sound)
    (h : grant ∈ builder.grants steps) :
    (builder.performAll steps).Finds grant.ref grant.operand := by
  induction steps generalizing builder with
  | nil => cases h
  | cons step rest ih =>
    have hnext := hsound.perform step
    rw [grants, List.mem_append, Option.mem_toList] at h
    rcases h with hstep | hrest
    · have heffect := effect_perform hsound step
      rw [hstep] at heffect
      exact (heffect.finds hnext.toIndexed).performAll rest
    · exact ih hnext hrest

end Maps

theorem image_withTextLimits (builder : Builder) (limits : List Int) :
    (limits.foldl withTextLimit builder).image = builder.image := by
  induction limits generalizing builder with
  | nil => rfl
  | cons limit limits ih =>
    refine (ih _).trans ?_
    unfold withTextLimit
    split_ifs <;> rfl

/-! ### Calls that succeed -/

/-- A step that asks for an operand and succeeds hands out a reference, which is granted. -/
theorem grant?_of_ok {builder : Builder} {step : BuildStep} {operand : Operand}
    {given : Option Cell} (hoperand : step.operand? = some operand)
    (h : (builder.perform step).1 = .ok given) :
    ∃ ref, given = some ref ∧ builder.grant? step = some ⟨operand, ref⟩ := by
  have hposition : ∀ file line, step ≠ .position file line := by
    rintro file line rfl
    cases hoperand
  have hgiven : ∃ ref, given = some ref := by
    have hcall : ∀ call : Build Cell, act step = some <$> call → ∃ ref, given = some ref := by
      intro call hact
      rw [perform_eq builder hact] at h
      generalize (builder.run call).1 = result at h
      cases result with
      | error error => cases h
      | ok ref =>
        cases h
        exact ⟨ref, rfl⟩
    cases step with
    | number | text | literal | storage | slot => exact hcall _ rfl
    | emit | patch | position | function => cases hoperand
  obtain ⟨ref, rfl⟩ := hgiven
  refine ⟨ref, rfl, ?_⟩
  rw [grant?.eq_2 builder step hposition, hoperand, h]

theorem grants_append (builder : Builder) (first second : List BuildStep) :
    builder.grants (first ++ second) =
      builder.grants first ++ (builder.performAll first).grants second := by
  induction first generalizing builder with
  | nil => rfl
  | cons step rest ih =>
    rw [List.cons_append, grants, grants, ih, List.append_assoc]
    rfl

/-! ### Constants -/

/-- References into a list of distinct items are equal exactly when the items are. -/
theorem ref_eq_iff {α : Type} {items : List α} (hdistinct : items.Nodup) {first second : α}
    {ref other : Cell} (hcode : ref.code = other.code)
    (hfirst : items[ref.value.toNat]? = some first)
    (hsecond : items[other.value.toNat]? = some second) : ref = other ↔ first = second := by
  constructor
  · rintro rfl
    exact Option.some.inj (hfirst.symm.trans hsecond)
  · rintro rfl
    have hlt : ref.value.toNat < items.length := (List.getElem?_eq_some_iff.mp hfirst).1
    have hvalue := (List.getElem?_inj hlt hdistinct).mp (hfirst.trans hsecond.symm)
    obtain ⟨code, value⟩ := ref
    obtain ⟨code', value'⟩ := other
    exact congrArg₂ Cell.mk hcode (UInt32.toNat_inj.mp hvalue)

end Builder

/-- What grants say about the tables and the maps of the builder that they are made by. -/
structure Interned (log : List Grant) (builder : Builder) : Prop where
  /-- Numbers have the same reference when they have the same bits. -/
  number_ref : ∀ first second ref other,
    ⟨.number first, ref⟩ ∈ log → ⟨.number second, other⟩ ∈ log →
      (ref = other ↔ first.bits = second.bits)
  /-- Texts have the same reference when they have the same bytes. -/
  text_ref : ∀ first second ref other,
    ⟨.text first, ref⟩ ∈ log → ⟨.text second, other⟩ ∈ log → (ref = other ↔ first = second)
  /-- Constants stand in the order in which they were first granted. -/
  numbers : builder.image.numbers = (log.filterMap Grant.number?).eraseDups
  texts : builder.image.texts = (log.filterMap Grant.text?).eraseDups
  storage : builder.image.storage = log.filterMap Grant.storageName?
  numbers_nodup : builder.image.numbers.Nodup
  texts_nodup : builder.image.texts.Nodup
  storage_nodup : builder.image.storage.Nodup
  /-- Each storage variable or array, and each slot of a class, has a place of its own. -/
  places : log.Pairwise fun first second ↦
    first.operand.Shares second.operand → first.ref.value ≠ second.ref.value
  /-- The maps find exactly what is in the tables, where it stands. -/
  indexed : builder.Indexed
  /-- The maps give the references that were granted. -/
  found : ∀ grant ∈ log, builder.Finds grant.ref grant.operand

namespace Builder

/-- Whatever steps are taken, constants are interned. Every step that asks for an operand and
succeeds is granted the reference that it hands out, which stands for the same operand whatever
steps follow. -/
theorem interned_performAll (limits : List Int) (steps : List BuildStep) :
    Interned ((limits.foldl withTextLimit {}).grants steps)
        ((limits.foldl withTextLimit {}).performAll steps) ∧
      (∀ before step after operand given, steps = before ++ step :: after →
        step.operand? = some operand →
        (((limits.foldl withTextLimit {}).performAll before).perform step).1 = .ok given →
        ∃ ref, given = some ref ∧ ⟨operand, ref⟩ ∈ (limits.foldl withTextLimit {}).grants steps) ∧
      ∀ grant ∈ (limits.foldl withTextLimit {}).grants steps, ∀ more,
        ((limits.foldl withTextLimit {}).performAll (steps ++ more)).image.pools.Denotes
          grant.ref grant.operand := by
  have hsound := Sound.empty.withTextLimits limits
  have himage := image_withTextLimits {} limits
  generalize limits.foldl withTextLimit {} = start at *
  have hlast := hsound.performAll steps
  have hpools :
      (start.performAll steps).image.pools = ({} : Pools).after (start.grants steps) := by
    rw [pools_performAll hsound, himage]
    rfl
  refine ⟨?_, ?_, fun grant hgrant more ↦ ?_⟩
  · constructor
    case number_ref =>
      intro first second ref other hfirst hsecond
      obtain ⟨hcode, hholds⟩ := denotes_of_mem_grants hsound hfirst
      obtain ⟨hcode', hholds'⟩ := denotes_of_mem_grants hsound hsecond
      exact (ref_eq_iff hlast.nodup_numbers (hcode.trans hcode'.symm) hholds hholds').trans
        (Number.mk.injEq first.bits second.bits).to_iff
    case text_ref =>
      intro first second ref other hfirst hsecond
      obtain ⟨hcode, hholds⟩ := denotes_of_mem_grants hsound hfirst
      obtain ⟨hcode', hholds'⟩ := denotes_of_mem_grants hsound hsecond
      exact ref_eq_iff hlast.textPlaces.nodup (hcode.trans hcode'.symm) hholds hholds'
    case numbers => exact (congrArg Pools.numbers hpools).trans (Pools.numbers_after _)
    case texts => exact (congrArg Pools.texts hpools).trans (Pools.texts_after _)
    case storage => exact (congrArg Pools.storage hpools).trans (Pools.storage_after _)
    case numbers_nodup => exact hlast.nodup_numbers
    case texts_nodup => exact hlast.textPlaces.nodup
    case storage_nodup => exact hlast.storageRefs.nodup
    case places => exact pairwise_grants hsound steps
    case indexed => exact hlast.toIndexed
    case found => exact fun grant hgrant ↦ finds_of_mem_grants hsound hgrant
  · rintro before step after operand given rfl hoperand hgiven
    obtain ⟨ref, rfl, hgrant⟩ := grant?_of_ok hoperand hgiven
    refine ⟨ref, rfl, ?_⟩
    rw [grants_append, grants, hgrant]
    simp
  · rw [performAll_append]
    exact denotes_performAll (hsound.performAll steps) (denotes_of_mem_grants hsound hgrant) more

/-- A run that asks for constants again, as numbers, literals and the file of a position, for both
zeros, and for a storage name that is taken. -/
def repeatedSteps : List BuildStep :=
  [.number ⟨0⟩, .text (utf8 "a"), .literal ⟨.numeric, utf8 "-0"⟩, .position (utf8 "a") 2,
   .literal ⟨.numeric, utf8 "0"⟩, .storage (utf8 "a") .single .text, .slot 170,
   .storage (utf8 "a") .array .numeric, .storage (utf8 "b") .array .numeric,
   .literal ⟨.text, utf8 "b"⟩, .slot 170, .text (utf8 "overlong"), .number ⟨0x8000000000000000⟩]

/-- What the steps are granted: equal constants share a reference, and all others differ. -/
def repeatedGrants : List Grant :=
  [⟨.number ⟨0⟩, ⟨130, 0⟩⟩, ⟨.text (utf8 "a"), ⟨131, 0⟩⟩,
   ⟨.number ⟨0x8000000000000000⟩, ⟨130, 1⟩⟩, ⟨.text (utf8 "a"), ⟨131, 0⟩⟩,
   ⟨.number ⟨0⟩, ⟨130, 0⟩⟩, ⟨.storage (utf8 "a") .single .text, ⟨141, 0⟩⟩,
   ⟨.slot (.values .array .numeric), ⟨170, 0⟩⟩,
   ⟨.storage (utf8 "b") .array .numeric, ⟨150, 1⟩⟩, ⟨.text (utf8 "b"), ⟨131, 1⟩⟩,
   ⟨.slot (.values .array .numeric), ⟨170, 1⟩⟩, ⟨.number ⟨0x8000000000000000⟩, ⟨130, 1⟩⟩]

theorem interned_repeatedSteps :
    ([5].foldl withTextLimit {}).grants repeatedSteps = repeatedGrants ∧
      Interned repeatedGrants (([5].foldl withTextLimit {}).performAll repeatedSteps) := by
  have hgrants : ([5].foldl withTextLimit {}).grants repeatedSteps = repeatedGrants := by
    decide +kernel
  exact ⟨hgrants, hgrants ▸ (interned_performAll [5] repeatedSteps).1⟩

end Builder

end LineScript
