import LineScript.Proofs.Builder.Interning

/-!
The tables that the steps of building are about. A step leaves every other table as it is
(`content_perform`), and what it gives and what it makes of its own tables depends on nothing but
these tables (`alike_perform`). That holds of steps that fail as well, whatever they have changed
before they fail.
-/

set_option autoImplicit false
set_option relaxedAutoImplicit false

namespace LineScript

/-- The parts of a builder that steps are about. -/
inductive Table where
  | numbers
  | texts
  | storage
  | memory (ramClass : RamClass)
  | code (codeSection : Section)
  deriving DecidableEq, Repr

/-- What a table holds. -/
abbrev Table.Content : Table → Type
  | .numbers => List Number × List (UInt64 × UInt32)
  | .texts => List Bytes × List (Bytes × UInt32) × Nat
  | .storage => List Bytes × List (Bytes × Cell)
  | .memory _ => UInt32
  | .code .init => List Cell
  | .code .program => List Cell × FunctionTable × Bytes × Int

/-- The tables that a step is about. A word that is no literal has none, and neither has a slot that
is no memory. -/
def BuildStep.tables : BuildStep → List Table
  | .number _ => [.numbers]
  | .text _ => [.texts]
  | .literal word =>
    match word.kind with
    | .numeric => [.numbers]
    | .text => [.texts]
    | _ => []
  | .storage _ _ _ => [.storage]
  | .slot code =>
    match Tag.ofCode? code with
    | some (.ram ramClass) => [.memory ramClass]
    | _ => []
  | .emit codeSection _ _ | .patch codeSection _ _ => [.code codeSection]
  | .position _ _ => [.texts, .code .program]
  | .function _ => [.code .program]

namespace Builder

/-- What a builder has in a table. The maps go with their tables and the limit on texts with the
texts. The functions and the last position go with the program section. -/
def content (builder : Builder) : (table : Table) → table.Content
  | .numbers => (builder.image.numbers, builder.numberPlaces)
  | .texts => (builder.image.texts, builder.textPlaces, builder.textLimit)
  | .storage => (builder.image.storage, builder.storageRefs)
  | .memory ramClass => builder.image.ram.size ramClass
  | .code .init => builder.image.init
  | .code .program =>
    (builder.image.program, builder.image.functions, builder.file, builder.line)

/-- Nothing of a builder is outside of its tables. -/
theorem eq_of_content {first second : Builder}
    (h : ∀ table, first.content table = second.content table) : first = second := by
  obtain ⟨⟨init, program, numbers, texts, storage, functions, ram⟩, numberPlaces, textPlaces,
    storageRefs, textLimit, file, line⟩ := first
  obtain ⟨⟨init', program', numbers', texts', storage', functions', ram'⟩, numberPlaces',
    textPlaces', storageRefs', textLimit', file', line'⟩ := second
  obtain ⟨rfl, rfl⟩ : numbers = numbers' ∧ numberPlaces = numberPlaces' :=
    Prod.mk.inj (h .numbers)
  obtain ⟨rfl, htexts⟩ := Prod.mk.inj (h .texts)
  obtain ⟨rfl, rfl⟩ := Prod.mk.inj htexts
  obtain ⟨rfl, rfl⟩ : storage = storage' ∧ storageRefs = storageRefs' :=
    Prod.mk.inj (h .storage)
  obtain rfl : init = init' := h (.code .init)
  obtain ⟨rfl, hrest⟩ := Prod.mk.inj (h (.code .program))
  obtain ⟨rfl, hmark⟩ := Prod.mk.inj hrest
  obtain ⟨rfl, rfl⟩ := Prod.mk.inj hmark
  have hram : ram = ram' := by
    obtain ⟨numericVariables, textVariables, numericArrays, textArrays, dataReferences⟩ := ram
    obtain ⟨numericVariables', textVariables', numericArrays', textArrays', dataReferences'⟩ := ram'
    obtain rfl : numericVariables = numericVariables' := h (.memory (.values .single .numeric))
    obtain rfl : textVariables = textVariables' := h (.memory (.values .single .text))
    obtain rfl : numericArrays = numericArrays' := h (.memory (.values .array .numeric))
    obtain rfl : textArrays = textArrays' := h (.memory (.values .array .text))
    obtain rfl : dataReferences = dataReferences' := h (.memory .data)
    rfl
  rw [hram]

/-- A literal is a number, or a text, or nothing that can be asked for. -/
theorem literal_cases (word : Word) :
    (∃ value, (BuildStep.literal word).tables = [.numbers] ∧ literal word = number value) ∨
    ((BuildStep.literal word).tables = [.texts] ∧ literal word = text word.text) ∨
    ∃ error, literal word = throw error := by
  obtain ⟨kind, spelling⟩ := word
  cases kind with
  | numeric =>
    cases hvalue : Number.read? spelling with
    | some value =>
      refine Or.inl ⟨value, rfl, ?_⟩
      simp only [literal, hvalue]
    | none =>
      refine Or.inr (Or.inr ⟨.invalidNumber spelling, ?_⟩)
      simp only [literal, hvalue]
  | text => exact Or.inr (Or.inl ⟨rfl, rfl⟩)
  | _ => exact Or.inr (Or.inr ⟨_, rfl⟩)

/-- A slot belongs to a class of memory, or there is none to be had. -/
theorem slot_cases (code : UInt8) :
    (∃ ramClass, Tag.ofCode? code = some (.ram ramClass) ∧
      (BuildStep.slot code).tables = [.memory ramClass]) ∨
    slot code = throw (.notMemory code) := by
  by_cases hmemory : ∃ ramClass, Tag.ofCode? code = some (.ram ramClass)
  · obtain ⟨ramClass, hcode⟩ := hmemory
    exact Or.inl ⟨ramClass, hcode, by rw [BuildStep.tables, hcode]⟩
  · right
    unfold slot
    split
    · rename_i ramClass hcode
      exact absurd ⟨ramClass, hcode⟩ hmemory
    · rfl

/-! ### Other tables stay -/

section Updates

variable (builder : Builder) {table : Table}

theorem content_addNumber (value : Number) (place : UInt32) (h : table ≠ .numbers) :
    (builder.addNumber value place).content table = builder.content table := by
  rcases table with _ | _ | _ | _ | (_ | _)
  case numbers => exact absurd rfl h
  all_goals rfl

theorem content_addText (value : Bytes) (place : UInt32) (h : table ≠ .texts) :
    (builder.addText value place).content table = builder.content table := by
  rcases table with _ | _ | _ | _ | (_ | _)
  case texts => exact absurd rfl h
  all_goals rfl

theorem content_addStorage (name : Bytes) (ref : Cell) (h : table ≠ .storage) :
    (builder.addStorage name ref).content table = builder.content table := by
  rcases table with _ | _ | _ | _ | (_ | _)
  case storage => exact absurd rfl h
  all_goals rfl

theorem content_grow {ramClass : RamClass} (h : table ≠ .memory ramClass) :
    ({ builder with image.ram := builder.image.ram.grow ramClass } : Builder).content table =
      builder.content table := by
  rcases table with _ | _ | _ | other | (_ | _)
  case memory =>
    refine (size_grow builder.image.ram ramClass other).trans (if_neg ?_)
    rintro rfl
    exact h rfl
  all_goals rfl

theorem content_setCode {codeSection : Section} (cells : List Cell)
    (h : table ≠ .code codeSection) :
    (builder.setCode codeSection cells).content table = builder.content table := by
  cases codeSection with
  | init =>
    rcases table with _ | _ | _ | _ | (_ | _)
    case code.init => exact absurd rfl h
    all_goals rfl
  | program =>
    rcases table with _ | _ | _ | _ | (_ | _)
    case code.program => exact absurd rfl h
    all_goals rfl

theorem content_withFunctions (functions : FunctionTable) (h : table ≠ .code .program) :
    ({ builder with image.functions := functions } : Builder).content table =
      builder.content table := by
  rcases table with _ | _ | _ | _ | (_ | _)
  case code.program => exact absurd rfl h
  all_goals rfl

theorem content_withMark (file : Bytes) (line : Int) (h : table ≠ .code .program) :
    ({ builder with file, line } : Builder).content table = builder.content table := by
  rcases table with _ | _ | _ | _ | (_ | _)
  case code.program => exact absurd rfl h
  all_goals rfl

end Updates

section Frame

variable {table : Table}

/-- Whether a computation leaves a table as it is, also when it fails. -/
def Keeps {α : Type} (table : Table) (build : Build α) : Prop :=
  ∀ builder : Builder, (builder.run build).2.content table = builder.content table

theorem keeps_number (value : Number) (h : table ≠ .numbers) : Keeps table (number value) := by
  intro builder
  rw [run_number]
  split
  · rfl
  · split
    · exact content_addNumber builder _ _ h
    · rfl

theorem keeps_text (value : Bytes) (h : table ≠ .texts) : Keeps table (text value) := by
  intro builder
  rw [run_text]
  split
  · rfl
  · split_ifs
    · rfl
    · rfl
    · split
      · exact content_addText builder _ _ h
      · rfl

theorem keeps_storage (name : Bytes) (arity : Arity) (type : ValueType) (h : table ≠ .storage) :
    Keeps table (storage name arity type) := by
  intro builder
  rw [run_storage]
  split_ifs
  · rfl
  · split
    · rfl
    · split
      · exact content_addStorage builder _ _ h
      · rfl

theorem keeps_slot {code : UInt8} {ramClass : RamClass}
    (hcode : Tag.ofCode? code = some (.ram ramClass)) (h : table ≠ .memory ramClass) :
    Keeps table (slot code) := by
  intro builder
  rw [run_slot, hcode]
  dsimp only
  split
  · exact content_grow builder h
  · rfl

theorem keeps_emit (codeSection : Section) (code : UInt8) (value : UInt32)
    (h : table ≠ .code codeSection) : Keeps table (emit codeSection code value) := by
  intro builder
  rw [run_emit]
  split
  · rfl
  · split_ifs
    · rfl
    · exact content_setCode builder _ h

theorem keeps_patch (codeSection : Section) (address value : UInt32)
    (h : table ≠ .code codeSection) : Keeps table (patch codeSection address value) := by
  intro builder
  rw [run_patch]
  split
  · rfl
  · split
    · rfl
    · exact content_setCode builder _ h

theorem keeps_function (name : Bytes) (h : table ≠ .code .program) :
    Keeps table (function name) := by
  intro builder
  rw [run_function]
  split_ifs
  · rfl
  · split
    · exact content_withFunctions builder _ h
    · rfl

/-- Marks concern the program section and what goes with it. -/
theorem content_of_marks {builder next : Builder} (h : Marks builder next)
    (hprogram : table ≠ .code .program) : next.content table = builder.content table := by
  obtain ⟨cells, file, line, -, rfl⟩ := h
  rcases table with _ | _ | _ | _ | (_ | _)
  case code.program => exact absurd rfl hprogram
  all_goals rfl

theorem keeps_position (file : Bytes) (line : Int) (htexts : table ≠ .texts)
    (hprogram : table ≠ .code .program) : Keeps table (position file line) := by
  intro builder
  rcases position_cases builder file line with ⟨-, hmarks⟩ | ⟨ref, named, -, htext, hmarks⟩
  · exact content_of_marks hmarks hprogram
  · have hnamed := keeps_text file htexts builder
    rw [htext] at hnamed
    exact (content_of_marks hmarks hprogram).trans hnamed

theorem content_of_act {α : Type} {build : Build α} {give : α → Option Cell} {step : BuildStep}
    (hact : act step = give <$> build) (h : Keeps table build) (builder : Builder) :
    (builder.perform step).2.content table = builder.content table := by
  rw [perform_eq builder hact]
  exact h builder

/-- A step leaves the tables that it is not about as they are. -/
theorem content_perform (builder : Builder) {step : BuildStep} (h : table ∉ step.tables) :
    (builder.perform step).2.content table = builder.content table := by
  cases step with
  | number value =>
    exact content_of_act rfl (keeps_number value (List.ne_of_not_mem_cons h)) builder
  | text value => exact content_of_act rfl (keeps_text value (List.ne_of_not_mem_cons h)) builder
  | literal word =>
    refine content_of_act rfl ?_ builder
    rcases literal_cases word with ⟨value, htables, hsame⟩ | ⟨htables, hsame⟩ | ⟨error, hfails⟩
    · rw [hsame]
      exact keeps_number value (List.ne_of_not_mem_cons (htables ▸ h))
    · rw [hsame]
      exact keeps_text word.text (List.ne_of_not_mem_cons (htables ▸ h))
    · rw [hfails]
      exact fun _ ↦ rfl
  | storage name arity type =>
    exact content_of_act rfl (keeps_storage name arity type (List.ne_of_not_mem_cons h)) builder
  | slot code =>
    refine content_of_act rfl ?_ builder
    rcases slot_cases code with ⟨ramClass, hcode, htables⟩ | hfails
    · exact keeps_slot hcode (List.ne_of_not_mem_cons (htables ▸ h))
    · rw [hfails]
      exact fun _ ↦ rfl
  | emit codeSection code value =>
    exact content_of_act rfl (keeps_emit _ code value (List.ne_of_not_mem_cons h)) builder
  | patch codeSection address value =>
    exact content_of_act rfl (keeps_patch _ address value (List.ne_of_not_mem_cons h)) builder
  | position file line =>
    exact content_of_act rfl (keeps_position file line (List.ne_of_not_mem_cons h)
      (List.ne_of_not_mem_cons (List.not_mem_of_not_mem_cons h))) builder
  | function name =>
    exact content_of_act rfl (keeps_function name (List.ne_of_not_mem_cons h)) builder

end Frame

/-! ### The same in some tables -/

/-- Whether two builders have the same in some tables. -/
def Agree (tables : List Table) (first second : Builder) : Prop :=
  ∀ table ∈ tables, first.content table = second.content table

namespace Agree

variable {tables : List Table} {first second : Builder}

/-- The same is done to one table of both. -/
theorem update (h : Agree tables first second) (own : Table) {next other : Builder}
    (hfirst : ∀ table, table ≠ own → next.content table = first.content table)
    (hsecond : ∀ table, table ≠ own → other.content table = second.content table)
    (hown : first.content own = second.content own → next.content own = other.content own) :
    Agree tables next other := by
  intro table htable
  by_cases hsame : table = own
  · subst hsame
    exact hown (h table htable)
  · rw [hfirst table hsame, hsecond table hsame, h table htable]

theorem numbers_eq (h : Agree tables first second) (hmem : .numbers ∈ tables) :
    first.image.numbers = second.image.numbers ∧ first.numberPlaces = second.numberPlaces :=
  Prod.mk.inj (h _ hmem)

theorem texts_eq (h : Agree tables first second) (hmem : .texts ∈ tables) :
    first.image.texts = second.image.texts ∧ first.textPlaces = second.textPlaces ∧
      first.textLimit = second.textLimit :=
  (Prod.mk.inj (h _ hmem)).imp_right Prod.mk.inj

theorem storage_eq (h : Agree tables first second) (hmem : .storage ∈ tables) :
    first.image.storage = second.image.storage ∧ first.storageRefs = second.storageRefs :=
  Prod.mk.inj (h _ hmem)

theorem addNumber (h : Agree tables first second) (value : Number) (place : UInt32) :
    Agree tables (first.addNumber value place) (second.addNumber value place) := by
  refine h.update .numbers (fun _ ↦ content_addNumber first value place)
    (fun _ ↦ content_addNumber second value place) fun hown ↦ ?_
  obtain ⟨hnumbers, hplaces⟩ := Prod.mk.inj hown
  exact congrArg₂ Prod.mk (congrArg (· ++ [value]) hnumbers)
    (congrArg ((value.bits, place) :: ·) hplaces)

theorem addText (h : Agree tables first second) (value : Bytes) (place : UInt32) :
    Agree tables (first.addText value place) (second.addText value place) := by
  refine h.update .texts (fun _ ↦ content_addText first value place)
    (fun _ ↦ content_addText second value place) fun hown ↦ ?_
  obtain ⟨htexts, hrest⟩ := Prod.mk.inj hown
  obtain ⟨hplaces, hlimit⟩ := Prod.mk.inj hrest
  exact congrArg₂ Prod.mk (congrArg (· ++ [value]) htexts)
    (congrArg₂ Prod.mk (congrArg ((value, place) :: ·) hplaces) hlimit)

theorem addStorage (h : Agree tables first second) (name : Bytes) (ref : Cell) :
    Agree tables (first.addStorage name ref) (second.addStorage name ref) := by
  refine h.update .storage (fun _ ↦ content_addStorage first name ref)
    (fun _ ↦ content_addStorage second name ref) fun hown ↦ ?_
  obtain ⟨hnames, hrefs⟩ := Prod.mk.inj hown
  exact congrArg₂ Prod.mk (congrArg (· ++ [name]) hnames) (congrArg ((name, ref) :: ·) hrefs)

theorem grow (h : Agree tables first second) (ramClass : RamClass) :
    Agree tables { first with image.ram := first.image.ram.grow ramClass }
      { second with image.ram := second.image.ram.grow ramClass } := by
  refine h.update (.memory ramClass) (fun _ ↦ content_grow first) (fun _ ↦ content_grow second) ?_
  intro hown
  change first.image.ram.size ramClass = second.image.ram.size ramClass at hown
  change (first.image.ram.grow ramClass).size _ = (second.image.ram.grow ramClass).size _
  rw [size_grow, size_grow, hown]

theorem setCode (h : Agree tables first second) (codeSection : Section) (cells : List Cell) :
    Agree tables (first.setCode codeSection cells) (second.setCode codeSection cells) := by
  refine h.update (.code codeSection) (fun _ ↦ content_setCode first cells)
    (fun _ ↦ content_setCode second cells) fun hown ↦ ?_
  cases codeSection with
  | init => rfl
  | program => exact Prod.ext rfl (Prod.mk.inj hown).2

theorem withFunctions (h : Agree tables first second) (functions : FunctionTable) :
    Agree tables { first with image.functions := functions }
      { second with image.functions := functions } := by
  refine h.update (.code .program) (fun _ ↦ content_withFunctions first functions)
    (fun _ ↦ content_withFunctions second functions) fun hown ↦ ?_
  obtain ⟨hprogram, hrest⟩ := Prod.mk.inj hown
  exact Prod.ext hprogram (Prod.ext rfl (Prod.mk.inj hrest).2)

theorem withMark (h : Agree tables first second) (file : Bytes) (line : Int) :
    Agree tables { first with file, line } { second with file, line } := by
  refine h.update (.code .program) (fun _ ↦ content_withMark first file line)
    (fun _ ↦ content_withMark second file line) fun hown ↦ ?_
  obtain ⟨hprogram, hrest⟩ := Prod.mk.inj hown
  exact Prod.ext hprogram (Prod.ext (Prod.mk.inj hrest).1 rfl)

theorem withLine (h : Agree tables first second) (line : Int) :
    Agree tables { first with line } { second with line } := by
  refine h.update (.code .program) (fun _ ↦ content_withMark first first.file line)
    (fun _ ↦ content_withMark second second.file line) fun hown ↦ ?_
  obtain ⟨hprogram, hrest⟩ := Prod.mk.inj hown
  obtain ⟨hfunctions, hmark⟩ := Prod.mk.inj hrest
  exact Prod.ext hprogram (Prod.ext hfunctions (Prod.ext (Prod.mk.inj hmark).1 rfl))

theorem functions_eq (h : Agree tables first second) (hmem : .code .program ∈ tables) :
    first.image.functions = second.image.functions :=
  (Prod.mk.inj (Prod.mk.inj (h _ hmem)).2).1

theorem file_eq (h : Agree tables first second) (hmem : .code .program ∈ tables) :
    first.file = second.file :=
  (Prod.mk.inj (Prod.mk.inj (Prod.mk.inj (h _ hmem)).2).2).1

theorem line_eq (h : Agree tables first second) (hmem : .code .program ∈ tables) :
    first.line = second.line :=
  (Prod.mk.inj (Prod.mk.inj (Prod.mk.inj (h _ hmem)).2).2).2

theorem code_eq (h : Agree tables first second) {codeSection : Section}
    (hmem : .code codeSection ∈ tables) :
    first.image.code codeSection = second.image.code codeSection := by
  have hsame := h _ hmem
  cases codeSection with
  | init => exact hsame
  | program => exact (Prod.mk.inj hsame).1

end Agree

/-! ### Steps depend on their tables -/

/-- The same value, in builders that have the same in some tables. -/
structure Alike {α : Type} (tables : List Table) (first second : α × Builder) : Prop where
  value : first.1 = second.1
  agree : Agree tables first.2 second.2

/-- Whether what a computation gives, and what it makes of some tables, depends on these tables
only. -/
def IsLocal {α : Type} (tables : List Table) (build : Build α) : Prop :=
  ∀ first second : Builder, Agree tables first second →
    Alike tables (first.run build) (second.run build)

section Locality

variable {α β : Type} {tables : List Table}

theorem isLocal_pure (value : α) : IsLocal tables (pure value) :=
  fun _ _ h ↦ ⟨rfl, h⟩

theorem isLocal_throw (error : BuildError) : IsLocal tables (throw error : Build α) :=
  fun _ _ h ↦ ⟨rfl, h⟩

theorem isLocal_modify {change : Builder → Builder}
    (hchange : ∀ {first second}, Agree tables first second →
      Agree tables (change first) (change second)) : IsLocal tables (modify change) :=
  fun _ _ h ↦ ⟨rfl, hchange h⟩

theorem isLocal_bind {call : Build α} {rest : α → Build β} (hcall : IsLocal tables call)
    (hrest : ∀ value, IsLocal tables (rest value)) : IsLocal tables (call >>= rest) := by
  intro first second h
  obtain ⟨hvalue, hagree⟩ := hcall first second h
  rw [run_bind, run_bind]
  generalize first.run call = outcome at hvalue hagree ⊢
  generalize second.run call = other at hvalue hagree ⊢
  obtain ⟨result, next⟩ := outcome
  obtain ⟨result', next'⟩ := other
  obtain rfl : result = result' := hvalue
  cases result with
  | error error => exact ⟨rfl, hagree⟩
  | ok value => exact hrest value next next' hagree

/-- What is looked at must be in the tables. -/
theorem isLocal_get_bind {rest : Builder → Build α}
    (hsame : ∀ {first second}, Agree tables first second → rest first = rest second)
    (hrest : ∀ builder, IsLocal tables (rest builder)) : IsLocal tables (get >>= rest) := by
  intro first second h
  rw [run_get_bind, run_get_bind, hsame h]
  exact hrest second first second h

theorem isLocal_liftM_bind (result : Except BuildError α) {rest : α → Build β}
    (hrest : ∀ value, IsLocal tables (rest value)) : IsLocal tables (liftM result >>= rest) :=
  isLocal_bind (fun _ _ h ↦ ⟨rfl, h⟩) hrest

theorem isLocal_number (hmem : .numbers ∈ tables) (value : Number) :
    IsLocal tables (number value) := by
  refine isLocal_get_bind (fun h ↦ by rw [(h.numbers_eq hmem).2]) fun builder ↦ ?_
  cases builder.numberPlaces.lookup value.bits with
  | some place => exact isLocal_pure _
  | none =>
    refine isLocal_get_bind (fun h ↦ by rw [(h.numbers_eq hmem).1]) fun _ ↦
      isLocal_liftM_bind _ fun ref ↦ isLocal_bind ?_ fun _ ↦ isLocal_pure ref
    exact isLocal_modify fun h ↦ h.addNumber value ref.value

theorem isLocal_text (hmem : .texts ∈ tables) (value : Bytes) : IsLocal tables (text value) := by
  refine isLocal_get_bind (fun h ↦ by rw [(h.texts_eq hmem).2.1]) fun builder ↦ ?_
  cases builder.textPlaces.lookup value with
  | some place => exact isLocal_pure _
  | none =>
    refine isLocal_get_bind (fun h ↦ by rw [(h.texts_eq hmem).2.2]) fun current ↦ ?_
    split_ifs
    · exact isLocal_throw _
    · exact isLocal_throw _
    · refine isLocal_get_bind (fun h ↦ by rw [(h.texts_eq hmem).1]) fun _ ↦
        isLocal_liftM_bind _ fun ref ↦ isLocal_bind ?_ fun _ ↦ isLocal_pure ref
      exact isLocal_modify fun h ↦ h.addText value ref.value

theorem isLocal_storage (hmem : .storage ∈ tables) (name : Bytes) (arity : Arity)
    (type : ValueType) : IsLocal tables (storage name arity type) := by
  unfold storage
  split_ifs
  · exact isLocal_throw _
  · refine isLocal_get_bind (fun h ↦ by rw [(h.storage_eq hmem).2]) fun builder ↦ ?_
    cases builder.storageRefs.lookup name with
    | some ref => exact isLocal_throw _
    | none =>
      refine isLocal_get_bind (fun h ↦ by rw [(h.storage_eq hmem).1]) fun _ ↦
        isLocal_liftM_bind _ fun ref ↦ isLocal_bind ?_ fun _ ↦ isLocal_pure ref
      exact isLocal_modify fun h ↦ h.addStorage name ref

theorem isLocal_slot {code : UInt8} {ramClass : RamClass}
    (hcode : Tag.ofCode? code = some (.ram ramClass)) (hmem : .memory ramClass ∈ tables) :
    IsLocal tables (slot code) := by
  unfold slot
  rw [hcode]
  have hsize : ∀ {first second : Builder}, Agree tables first second →
      first.image.ram.size ramClass = second.image.ram.size ramClass := fun h ↦ h _ hmem
  refine isLocal_get_bind (fun h ↦ by rw [hsize h]) fun _ ↦
    isLocal_liftM_bind _ fun ref ↦ isLocal_bind ?_ fun _ ↦ isLocal_pure ref
  exact isLocal_modify fun h ↦ h.grow ramClass

theorem isLocal_emit {codeSection : Section} (hmem : .code codeSection ∈ tables) (code : UInt8)
    (value : UInt32) : IsLocal tables (emit codeSection code value) := by
  refine isLocal_liftM_bind _ fun cell ↦
    isLocal_get_bind (fun h ↦ by rw [h.code_eq hmem]) fun builder ↦ ?_
  dsimp only
  split_ifs
  · exact isLocal_throw _
  · exact isLocal_modify fun h ↦ h.setCode codeSection _

theorem isLocal_patch {codeSection : Section} (hmem : .code codeSection ∈ tables)
    (address value : UInt32) : IsLocal tables (patch codeSection address value) := by
  refine isLocal_get_bind (fun h ↦ by rw [h.code_eq hmem]) fun builder ↦ ?_
  dsimp only
  cases (builder.image.code codeSection)[address.toNat]? with
  | none => exact isLocal_throw _
  | some old =>
    exact isLocal_liftM_bind _ fun cell ↦ isLocal_modify fun h ↦ h.setCode codeSection _

theorem isLocal_function (hmem : .code .program ∈ tables) (name : Bytes) :
    IsLocal tables (function name) := by
  unfold function
  split_ifs
  · exact isLocal_throw _
  · refine isLocal_get_bind (fun h ↦ ?_) fun builder ↦ ?_
    · rw [here, here, h.code_eq hmem, h.functions_eq hmem]
    · dsimp only
      split
      · exact isLocal_modify fun h ↦ h.withFunctions _
      · exact isLocal_throw _

theorem isLocal_markFile (htexts : .texts ∈ tables) (hprogram : .code .program ∈ tables)
    (file : Bytes) : IsLocal tables (markFile file) := by
  refine isLocal_get_bind (fun h ↦ by rw [h.file_eq hprogram]) fun builder ↦ ?_
  split_ifs
  · exact isLocal_pure _
  · refine isLocal_bind (isLocal_text htexts file) fun ref ↦
      isLocal_bind (isLocal_emit hprogram _ _) fun _ ↦ ?_
    exact isLocal_modify fun h ↦ h.withMark file 0

theorem isLocal_markLine (hprogram : .code .program ∈ tables) (line : Int) :
    IsLocal tables (markLine line) := by
  refine isLocal_get_bind (fun h ↦ by rw [h.line_eq hprogram]) fun builder ↦ ?_
  split_ifs
  · exact isLocal_pure _
  · exact isLocal_throw _
  · exact isLocal_bind (isLocal_modify fun h ↦ h.withLine line) fun _ ↦ isLocal_emit hprogram _ _

theorem isLocal_position (htexts : .texts ∈ tables) (hprogram : .code .program ∈ tables)
    (file : Bytes) (line : Int) : IsLocal tables (position file line) :=
  isLocal_bind (isLocal_markFile htexts hprogram file) fun _ ↦ isLocal_markLine hprogram line

/-! ### Steps -/

theorem alike_of_act {build : Build α} {give : α → Option Cell} {step : BuildStep}
    (hact : act step = give <$> build) (hlocal : IsLocal tables build) {first second : Builder}
    (h : Agree tables first second) :
    Alike tables (first.perform step) (second.perform step) := by
  obtain ⟨hvalue, hagree⟩ := hlocal first second h
  rw [perform_eq first hact, perform_eq second hact]
  exact ⟨congrArg (Except.map give) hvalue, hagree⟩

/-- What a step gives, and what it makes of its tables, depends on its tables only. -/
theorem alike_perform {first second : Builder} {step : BuildStep}
    (h : Agree step.tables first second) :
    Alike step.tables (first.perform step) (second.perform step) := by
  cases step with
  | number value => exact alike_of_act rfl (isLocal_number List.mem_cons_self value) h
  | text value => exact alike_of_act rfl (isLocal_text List.mem_cons_self value) h
  | literal word =>
    refine alike_of_act rfl ?_ h
    rcases literal_cases word with ⟨value, htables, hsame⟩ | ⟨htables, hsame⟩ | ⟨error, hfails⟩
    · rw [hsame, htables]
      exact isLocal_number List.mem_cons_self value
    · rw [hsame, htables]
      exact isLocal_text List.mem_cons_self word.text
    · rw [hfails]
      exact isLocal_throw error
  | storage name arity type =>
    exact alike_of_act rfl (isLocal_storage List.mem_cons_self name arity type) h
  | slot code =>
    refine alike_of_act rfl ?_ h
    rcases slot_cases code with ⟨ramClass, hcode, htables⟩ | hfails
    · rw [htables]
      exact isLocal_slot hcode List.mem_cons_self
    · rw [hfails]
      exact isLocal_throw _
  | emit codeSection code value =>
    exact alike_of_act rfl (isLocal_emit List.mem_cons_self code value) h
  | patch codeSection address value =>
    exact alike_of_act rfl (isLocal_patch List.mem_cons_self address value) h
  | position file line =>
    have hprogram : Table.code .program ∈ (BuildStep.position file line).tables :=
      List.mem_cons_of_mem _ List.mem_cons_self
    exact alike_of_act rfl (isLocal_position List.mem_cons_self hprogram file line) h
  | function name => exact alike_of_act rfl (isLocal_function List.mem_cons_self name) h

end Locality

end Builder

end LineScript
