import LineScript.Toml.Document

/-!
What the statements of a document define together. A key may be given a value once, and the header
of a table may occur once. A table that a longer key or header makes in passing may get its own
header later, or a value, which then has no effect; either ends its being made in passing. A key
whose last value was an array may be given a value again, which replaces the array.
-/

set_option autoImplicit false
set_option relaxedAutoImplicit false

namespace LineScript.Toml

/-- A defined value. -/
inductive Tree where
  | text (bytes : Bytes)
  | integer (value : Int)
  | real
  | boolean (value : Bool)
  | moment
  | array
  /-- The tables of a list that headers in two brackets opened. -/
  | tables (items : List (List (Bytes × Tree)))
  | table (entries : List (Bytes × Tree))

/-- Whether a value is an array. -/
def Tree.isArray : Tree → Bool
  | .array => true
  | _ => false

/-- Keys with their values, in order of definition. -/
abbrev Entries := List (Bytes × Tree)

/-- The keys that lead from the document to a value. -/
abbrev Path := List Bytes

namespace Entries

/-- The value of a key. -/
def find? (entries : Entries) (key : Bytes) : Option Tree :=
  List.lookup key entries

/-- The entries with a value for a key, in its old place if it has one. -/
def put (entries : Entries) (key : Bytes) (value : Tree) : Entries :=
  match entries with
  | [] => [(key, value)]
  | (first, old) :: rest =>
    if first = key then (key, value) :: rest else (first, old) :: put rest key value

/-- The table that a path leads to. Of a list of tables, the last one counts. -/
def at? (entries : Entries) : Path → Option Entries
  | [] => some entries
  | key :: path =>
    match entries.find? key with
    | some (.table inner) => at? inner path
    | some (.tables items) => items.getLast?.bind (at? · path)
    | _ => none

/-- Changes the table that a path leads to. -/
def change (edit : Entries → Entries) (entries : Entries) : Path → Option Entries
  | [] => some (edit entries)
  | key :: path =>
    match entries.find? key with
    | some (.table inner) =>
      (change edit inner path).map fun inner ↦ entries.put key (.table inner)
    | some (.tables items) => do
      let last ← change edit (← items.getLast?) path
      return entries.put key (.tables (items.dropLast ++ [last]))
    | _ => none

/-- Puts a value where a path and a key lead, and makes the tables that are missing on the way. -/
def putAt (entries : Entries) (key : Bytes) (value : Tree) : Path → Option Entries
  | [] => some (entries.put key value)
  | first :: path =>
    match entries.find? first with
    | none => (putAt [] key value path).map fun inner ↦ entries.put first (.table inner)
    | some (.table inner) =>
      (putAt inner key value path).map fun inner ↦ entries.put first (.table inner)
    | some _ => none

end Entries

/-- What has been defined so far. -/
structure Definitions where
  entries : Entries := []
  /-- The tables that were made in passing. -/
  passing : List Path := []
  /-- The keys whose last value was an array. -/
  arrays : List Path := []

namespace Definitions

/-- Notes that a table is made in passing. -/
def markPassing (definitions : Definitions) (path : Path) : Definitions :=
  { definitions with passing := path :: definitions.passing }

/-- Notes that a table is no longer made in passing. -/
def unmarkPassing (definitions : Definitions) (path : Path) : Definitions :=
  { definitions with passing := definitions.passing.filter (· != path) }

/-- Notes whether the value at a path is an array. -/
def note (definitions : Definitions) (path : Path) (isArray : Bool) : Definitions :=
  let others := definitions.arrays.filter (· != path)
  { definitions with arrays := if isArray then path :: others else others }

/-- Notes whether the value of a key in the table at a path is an array. For an empty key the
note is about the table, unless that is the document. -/
def noteKey (definitions : Definitions) (path : Path) (key : Bytes) (isArray : Bool) :
    Definitions :=
  definitions.note (if key.isEmpty ∧ !path.isEmpty then path else path ++ [key]) isArray

/-- Gives a value to a key of the table at a path. -/
def set (definitions : Definitions) (path : Path) (key : Bytes) (value : Tree) :
    Option Definitions := do
  let full := path ++ [key]
  let put : Option Definitions := do
    return { definitions with entries := ← definitions.entries.change (·.put key value) path }
  match (← definitions.entries.at? path).find? key with
  | none => put
  | some _ =>
    if definitions.arrays.contains full then return (← put).unmarkPassing full
    else if definitions.passing.contains full then some (definitions.unmarkPassing full)
    else none

/-- Makes the tables in passing that are missing on the way from one path along another. -/
def makeWay (definitions : Definitions) (path : Path) : Path → Option Definitions
  | [] => some definitions
  | key :: rest => do
    let full := path ++ [key]
    match (← definitions.entries.at? path).find? key with
    | some _ => makeWay definitions full rest
    | none =>
      let entries ← definitions.entries.change (·.put key (.table [])) path
      makeWay ({ definitions with entries }.markPassing full) full rest

/-- Opens the table at a path and a key. -/
def openTable (definitions : Definitions) (path : Path) (key : Bytes) : Option Definitions := do
  (← definitions.makeWay [] path).set path key (.table [])

/-- Opens the next table of the list at a path and a key. -/
def openNext (definitions : Definitions) (path : Path) (key : Bytes) : Option Definitions := do
  let definitions ← definitions.makeWay [] path
  let tables ← match (← definitions.entries.at? path).find? key with
    | none => some (.tables [[]])
    | some (.tables items) => some (.tables (items ++ [[]]))
    | some _ => none
  return { definitions with entries := ← definitions.entries.change (·.put key tables) path }

/-- Opens, in passing, each table that the parts of a key before its last lead through. -/
def openParts (definitions : Definitions) (path : Path) : Path → Option Definitions
  | [] => some definitions
  | key :: rest => do
    let full := path ++ [key]
    openParts (← (definitions.markPassing full).openTable path key) full rest

/-- Gives a key, whose parts lead on from a path, the value that is defined for it. -/
def assign (definitions : Definitions) (path parts : Path)
    (define : Definitions → Path → Bytes → Option (Definitions × Tree)) :
    Option (Definitions × Tree) := do
  let key ← parts.getLast?
  let definitions ← definitions.openParts path parts.dropLast
  let path := path ++ parts.dropLast
  let (definitions, value) ← define definitions path key
  let definitions ← definitions.set path key value
  return (definitions.noteKey path key value.isArray, value)

mutual

/-- Defines what the value of a key of the table at a path holds, and gives the value. Tables in
an array are a list of tables while the array is being defined. -/
def value (definitions : Definitions) (path : Path) (key : Bytes) (inArray : Bool) :
    Literal → Option (Definitions × Tree)
  | .text bytes => some (definitions, .text bytes)
  | .integer value => some (definitions, .integer value)
  | .real => some (definitions, .real)
  | .boolean value => some (definitions, .boolean value)
  | .moment => some (definitions, .moment)
  | .array items => do
    let definitions ← values (definitions.noteKey path key true) path key items
    return (definitions, .array)
  | .table entries => do
    let full := path ++ [key]
    let definitions := definitions.markPassing full
    let definitions ←
      if inArray then definitions.openNext path key else definitions.openTable path key
    let (definitions, table) ← assignAll definitions full [] entries
    return (definitions, .table table)

/-- Defines what the values of an array hold. -/
def values (definitions : Definitions) (path : Path) (key : Bytes) :
    List Literal → Option Definitions
  | [] => some definitions
  | item :: rest => do values (← value definitions path key true item).1 path key rest

/-- Gives values to the keys of a table on one line, and collects them. -/
def assignAll (definitions : Definitions) (path : Path) (table : Entries) :
    List (Path × Literal) → Option (Definitions × Entries)
  | [] => some (definitions, table)
  | (parts, literal) :: rest => do
    let (definitions, value) ← definitions.assign path parts fun definitions path key ↦
      value definitions path key false literal
    assignAll definitions path (← table.putAt (← parts.getLast?) value parts.dropLast) rest

end

/-- Defines what statements say, under the header that was opened last. -/
def run (definitions : Definitions) (header : Path) : List Statement → Option Definitions
  | [] => some definitions
  | .header path :: rest => do
    let definitions ← definitions.openTable path.dropLast (← path.getLast?)
    run (definitions.note path false) path rest
  | .listHeader path :: rest => do
    let definitions ← definitions.openNext path.dropLast (← path.getLast?)
    run (definitions.note path false) path rest
  | .assignment path literal :: rest => do
    let (definitions, _) ← definitions.assign header path fun definitions path key ↦
      value definitions path key false literal
    run definitions header rest

end Definitions

/-- The entries that a document defines. -/
def read? (bytes : Bytes) : Option Entries := do
  return (← Definitions.run {} [] (← document? bytes)).entries

end LineScript.Toml
