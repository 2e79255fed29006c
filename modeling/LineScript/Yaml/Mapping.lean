import LineScript.Yaml.Node
import LineScript.Yaml.Scalar

/-!
The fields of a mapping: its keys as texts, with their values. No key may occur twice. The key that
consists of two less-than signs, without quotes, brings the fields of other mappings in, and a field
that is there already stays. A key that means nothing is left out.
-/

set_option autoImplicit false
set_option relaxedAutoImplicit false

namespace LineScript.Yaml

open Bytes

/-- Whether two nodes are the same as keys. Collections of one kind are. -/
def Node.isSameKey : Node → Node → Bool
  | .scalar _ _ first, .scalar _ _ second => first == second
  | .alias first _, .alias second _ => first == second
  | .mapping _, .mapping _ => true
  | .sequence _, .sequence _ => true
  | _, _ => false

/-- Whether a key brings in the fields of other mappings. -/
def Node.isMerge : Node → Bool
  | .scalar isPlain tag text =>
    text == utf8 "<<" && match tag.bind Wish.ofTag? with
      | some wish => wish == .merge
      | none => isPlain
  | _ => false

/-- Whether no key occurs twice. -/
def isDistinct : List (Node × Node) → Bool
  | [] => true
  | (key, _) :: rest => !rest.any (key.isSameKey ·.1) && isDistinct rest

/-- Fields with their names, in order. -/
abbrev Fields := List (Bytes × Node)

/-- The fields whose names are not taken, the first of each name. -/
def Fields.fresh (taken : List Bytes) : Fields → Fields
  | [] => []
  | (name, value) :: rest =>
    if taken.contains name then fresh taken rest else (name, value) :: fresh (name :: taken) rest

/-- Whether a field occurs twice. -/
def Fields.hasTwice (isField : Bytes → Bool) : Fields → Bool
  | [] => false
  | (name, _) :: rest => (isField name && rest.any (·.1 == name)) || hasTwice isField rest

namespace Document

/-- The node that an alias stands for; any other node itself. -/
def target (document : Document) : Node → Node
  | .alias _ number => (document.anchored.lookup number).getD .nothing
  | node => node

/-- The meaning of a node that is a scalar. -/
def scalar? (document : Document) (node : Node) : Option Scalar :=
  match document.target node with
  | .scalar isPlain tag text => Scalar.of? isPlain tag text
  | _ => none

/-- The text of a node that is a scalar, as it is written unless it stands for bytes; none where
it means nothing. -/
def text? (document : Document) (node : Node) : Option (Option Bytes) :=
  match document.target node with
  | .scalar isPlain tag text => do
    match ← Scalar.of? isPlain tag text with
    | .null => some none
    | .text bytes => some (some bytes)
    | _ => some (some text)
  | _ => none

/-- The fields that keys and values make. -/
def namedFields? (document : Document) : List (Node × Node) → Option Fields
  | [] => some []
  | (key, value) :: rest => do
    if key.isMerge then namedFields? document rest
    else
      let name ← document.text? key
      let fields ← namedFields? document rest
      return match name with
        | none => fields
        | some name => (name, value) :: fields

/-- The entries of the mappings that a key brings in: of a mapping, or of each in a sequence. -/
def mergedEntries? (document : Document) (node : Node) : Option (List (List (Node × Node))) :=
  let entries? (node : Node) : Option (List (Node × Node)) :=
    match document.target node with
    | .mapping entries => some entries
    | _ => none
  match node with
  | .sequence items => items.mapM entries?
  | node => (entries? node).map ([·])

mutual

/-- The fields of a mapping that is brought in, to a depth of `fuel`, other than those taken. -/
def broughtFields? (document : Document) :
    (fuel : Nat) → (taken : List Bytes) → List (Node × Node) → Option Fields
  | 0, _, _ => none
  | fuel + 1, taken, entries => do
    guard (isDistinct entries)
    let own := (← document.namedFields? entries).fresh taken
    let more ← broughtByKey? document fuel (taken ++ own.map (·.1)) entries
    return own ++ more

/-- The fields that the key for it brings into a mapping, other than those taken. -/
def broughtByKey? (document : Document) :
    (fuel : Nat) → (taken : List Bytes) → List (Node × Node) → Option Fields
  | 0, _, _ => none
  | fuel + 1, taken, entries =>
    match entries.find? (·.1.isMerge) with
    | none => some []
    | some (_, node) => do
      let mappings ← document.mergedEntries? node
      mappings.foldlM (fun fields entries ↦ do
        let more ← broughtFields? document fuel (taken ++ fields.map (·.1)) entries
        return fields ++ more) []

end

/-- The fields of a node that is a mapping; none where it means nothing. Of those that matter, none
may occur twice. -/
def fields? (document : Document) (isField : Bytes → Bool) (node : Node) : Option Fields :=
  match document.target node with
  | .mapping entries => do
    guard (isDistinct entries)
    let own ← document.namedFields? entries
    guard !(own.hasTwice isField)
    let more ← document.broughtByKey? document.depth (own.map (·.1)) entries
    return own ++ more
  | node => do
    match ← document.scalar? node with
    | .null => some []
    | _ => none

end Document

end LineScript.Yaml
