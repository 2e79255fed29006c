import LineScript.Yaml.TokenStream

/-!
The nodes of a YAML document. A node is a scalar, a sequence, a mapping, or an alias of a node that
has an anchor. Only the first document of a stream is read, and only as far as its end shows.
-/

set_option autoImplicit false
set_option relaxedAutoImplicit false

namespace LineScript.Yaml

open Bytes

/-- A node of a document. -/
inductive Node where
  /-- A scalar, with its tag if it has one. -/
  | scalar (isPlain : Bool) (tag : Option Bytes) (text : Bytes)
  | mapping (entries : List (Node × Node))
  | sequence (items : List Node)
  /-- The node that an anchor with a name marks, by the number of the anchor. -/
  | alias (name : Bytes) (number : Nat)

/-- A scalar where nothing is written. -/
def Node.nothing : Node :=
  .scalar true none []

/-- A document: its node, if it has one, and the nodes with anchors by their numbers. -/
structure Document where
  root : Option Node
  anchored : List (Nat × Node)
  /-- A bound on how deep its nodes are nested, aliases included. -/
  depth : Nat

/-- A document being read. -/
structure Reading where
  stream : TokenStream
  /-- The number of characters. -/
  length : Nat
  /-- What the handles of tags stand for. -/
  shorthands : List (Bytes × Bytes) := []
  /-- The numbers of anchors by name, the latest first. -/
  anchors : List (Bytes × Nat) := []
  anchored : List (Nat × Node) := []

/-- A step of reading, which may fail. -/
abbrev Step := StateT Reading Option

namespace Step

/-- The next token. -/
def peek : Step Token := do
  let reading ← get
  let stream ← reading.stream.filled reading.length (reading.length + 8)
  set { reading with stream }
  stream.queue.head?

/-- Skips the next token. -/
def advance : Step Unit :=
  modify fun reading ↦ { reading with stream := reading.stream.drop }

/-- Fails unless a condition holds. -/
def require (condition : Bool) : Step Unit :=
  if condition then pure () else failure

/-! ### Properties of nodes -/

/-- The tag that a handle and a suffix make. -/
def tagOf (handle suffix : Bytes) : Step Bytes := do
  if handle.isEmpty then return suffix
  else
    let meaning ← (← get).shorthands.lookup handle
    require !(meaning ++ suffix).isEmpty
    return meaning ++ suffix

/-- Gives an anchor the next number. -/
def number (name : Bytes) : Step Nat := do
  let reading ← get
  let number := reading.anchors.length
  set { reading with anchors := (name, number) :: reading.anchors }
  return number

/-- Reads the tag here, if there is one. -/
def tag? : Step (Option Bytes) := do
  match ← peek with
  | .tag handle suffix =>
    advance
    return some (← tagOf handle suffix)
  | _ => return none

/-- Reads the anchor here, if there is one. -/
def anchor? : Step (Option Nat) := do
  match ← peek with
  | .anchor name =>
    advance
    return some (← number name)
  | _ => return none

/-- Reads an anchor and a tag in either order. -/
def properties : Step (Option Nat × Option Bytes) := do
  match ← anchor? with
  | some number => return (some number, ← tag?)
  | none =>
    let tag ← tag?
    if tag.isSome then return (← anchor?, tag) else return (none, none)

/-! ### Nodes -/

mutual

/-- Reads a node. In block style it may be a collection by indentation, and below a key a sequence
that is not indented. -/
def node : (fuel : Nat) → (isBlock isBelowKey : Bool) → Step Node
  | 0, _, _ => failure
  | fuel + 1, isBlock, isBelowKey => do
    match ← peek with
    | .alias name =>
      advance
      return .alias name (← (← get).anchors.lookup name)
    | _ =>
      let (number, tag) ← properties
      let read ← content fuel isBlock isBelowKey number.isSome tag
      match number with
      | none => return read
      | some number =>
        modify fun reading ↦ { reading with anchored := (number, read) :: reading.anchored }
        return read

/-- Reads a node after its properties. With a property, nothing may be written. -/
def content : (fuel : Nat) → (isBlock isBelowKey hasAnchor : Bool) → Option Bytes → Step Node
  | 0, _, _, _, _ => failure
  | fuel + 1, isBlock, isBelowKey, hasAnchor, tag => do
    let token ← peek
    match token, isBlock, isBelowKey with
    | .blockEntry, _, true => return .sequence (← looseItems fuel)
    | .scalar isPlain text, _, _ =>
      advance
      return .scalar isPlain tag text
    | .flowSequenceStart, _, _ =>
      advance
      return .sequence (← flowItems fuel true)
    | .flowMappingStart, _, _ =>
      advance
      return .mapping (← flowEntries fuel true)
    | .blockSequenceStart, true, _ =>
      advance
      return .sequence (← blockItems fuel)
    | .blockMappingStart, true, _ =>
      advance
      return .mapping (← blockEntries fuel)
    | _, _, _ =>
      require (hasAnchor || tag.isSome)
      return .scalar true tag []

/-- Reads a node, or nothing before some tokens. -/
def nodeUnless : (fuel : Nat) → (isBlock isBelowKey : Bool) → List Token → Step Node
  | 0, _, _, _ => failure
  | fuel + 1, isBlock, isBelowKey, tokens => do
    if tokens.contains (← peek) then return .nothing else node fuel isBlock isBelowKey

/-- Reads the items of a sequence that is indented. -/
def blockItems : (fuel : Nat) → Step (List Node)
  | 0 => failure
  | fuel + 1 => do
    match ← peek with
    | .blockEntry =>
      advance
      let item ← nodeUnless fuel true false [.blockEntry, .blockEnd]
      return item :: (← blockItems fuel)
    | .blockEnd =>
      advance
      return []
    | _ => failure

/-- Reads the items of a sequence that is not indented. -/
def looseItems : (fuel : Nat) → Step (List Node)
  | 0 => failure
  | fuel + 1 => do
    match ← peek with
    | .blockEntry =>
      advance
      let item ← nodeUnless fuel true false [.blockEntry, .key, .value, .blockEnd]
      return item :: (← looseItems fuel)
    | _ => return []

/-- Reads the entries of a mapping that is indented. -/
def blockEntries : (fuel : Nat) → Step (List (Node × Node))
  | 0 => failure
  | fuel + 1 => do
    match ← peek with
    | .key =>
      advance
      let key ← nodeUnless fuel true true [.key, .value, .blockEnd]
      let value ← match ← peek with
        | .value => do
          advance
          nodeUnless fuel true true [.key, .value, .blockEnd]
        | _ => pure .nothing
      return (key, value) :: (← blockEntries fuel)
    | .blockEnd =>
      advance
      return []
    | _ => failure

/-- Reads the items of a sequence in flow style. An item with a key is a mapping of one entry. -/
def flowItems : (fuel : Nat) → (isFirst : Bool) → Step (List Node)
  | 0, _ => failure
  | fuel + 1, isFirst => do
    if (← peek) = .flowSequenceEnd then
      advance
      return []
    else
      if !isFirst then
        require ((← peek) == .flowEntry)
        advance
      match ← peek with
      | .key =>
        advance
        let entry ← flowPair fuel
        return .mapping [entry] :: (← flowItems fuel false)
      | .flowSequenceEnd =>
        advance
        return []
      | _ =>
        let item ← node fuel false false
        return item :: (← flowItems fuel false)

/-- Reads the key and the value of an item in flow style. Where the key is missing, the token in
its place is skipped. -/
def flowPair : (fuel : Nat) → Step (Node × Node)
  | 0 => failure
  | fuel + 1 => do
    let ends := [.value, .flowEntry, .flowSequenceEnd]
    let key ←
      if ends.contains (← peek) then do
        advance
        pure .nothing
      else node fuel false false
    match ← peek with
    | .value =>
      advance
      return (key, ← nodeUnless fuel false false [.flowEntry, .flowSequenceEnd])
    | _ => return (key, .nothing)

/-- Reads the entries of a mapping in flow style. -/
def flowEntries : (fuel : Nat) → (isFirst : Bool) → Step (List (Node × Node))
  | 0, _ => failure
  | fuel + 1, isFirst => do
    if (← peek) = .flowMappingEnd then
      advance
      return []
    else
      if !isFirst then
        require ((← peek) == .flowEntry)
        advance
      match ← peek with
      | .key =>
        advance
        let key ← nodeUnless fuel false false [.value, .flowEntry, .flowMappingEnd]
        let value ← match ← peek with
          | .value => do
            advance
            nodeUnless fuel false false [.flowEntry, .flowMappingEnd]
          | _ => pure .nothing
        return (key, value) :: (← flowEntries fuel false)
      | .flowMappingEnd =>
        advance
        return []
      | _ =>
        let key ← node fuel false false
        return (key, .nothing) :: (← flowEntries fuel false)

end

/-! ### Documents -/

/-- Reads the directives before a document, at most `fuel`. The version may be given once, and
every handle too. -/
def directives : (fuel : Nat) → (hasVersion : Bool) → Step Unit
  | 0, _ => failure
  | fuel + 1, hasVersion => do
    match ← peek with
    | .version major minor =>
      require (!hasVersion && major == 1 && minor == 1)
      advance
      directives fuel true
    | .shorthand handle meaning =>
      let reading ← get
      require (reading.shorthands.lookup handle).isNone
      set { reading with shorthands := reading.shorthands ++ [(handle, meaning)] }
      advance
      directives fuel hasVersion
    | _ => return ()

/-- What the handles of tags stand for unless directives say otherwise. -/
def defaultShorthands : List (Bytes × Bytes) :=
  [(utf8 "!", utf8 "!"), (utf8 "!!", utf8 "tag:yaml.org,2002:")]

/-- Whether a token starts a document, or a directive before it. -/
def opensDocument : Token → Bool
  | .version .. | .shorthand .. | .documentStart => true
  | _ => false

/-- Whether a token can be no part of a document. -/
def isBoundary (token : Token) : Bool :=
  opensDocument token || token == .documentEnd || token == .streamEnd

/-- Reads the node of the first document, if there is a document. After directives it starts with
its mark. -/
def root : Step (Option Node) := do
  require ((← peek) == .streamStart)
  advance
  let fuel := 8 * (← get).length + 64
  let first ← peek
  if first = .streamEnd then return none
  else
    directives fuel false
    modify fun reading ↦ { reading with shorthands := reading.shorthands ++ defaultShorthands }
    if opensDocument first then
      require ((← peek) == .documentStart)
      advance
    let isEmpty := opensDocument first && isBoundary (← peek)
    let node ← if isEmpty then pure .nothing else node fuel true false
    let _ ← peek
    return some node

end Step

/-- Reads the first document. -/
def Document.read? (bytes : Bytes) : Option Document := do
  let characters := Characters.ofBytes bytes
  let cursor : Cursor := { rest := characters.chars, isCut := characters.isCut }
  let length := characters.chars.length
  let (root, reading) ← Step.root.run { stream := { cursor }, length }
  return { root, anchored := reading.anchored, depth := 2 * length + 8 }

end LineScript.Yaml
