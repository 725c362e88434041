import TaskContract.Yaml.Stream

/-!
# Nodes of YAML

The tree of a stream that holds one document. An alias stands for a copy of the node that it names;
one within the node it names has no copy and is a node of its own.
-/

namespace TaskContract.Yaml

/-- A node. A tag is there if it is written and says something. -/
inductive Node where
  | scalar (tag : Option Text) (text : Text) (plain : Bool)
  | sequence (tag : Option Text) (items : List Node)
  | mapping (tag : Option Text) (pairs : List (Node × Node))
  | recursive
  deriving Inhabited

/-- The node in place of one that is left out. -/
def Node.absent : Node := .scalar none [] true

/-- The tokens still to come, the handles of tags, and the anchors so far; an anchor whose node is
not complete has none yet. -/
structure Composer where
  tokens : List Token
  handles : List (Text × Text) := []
  anchors : List (Text × Option Node) := []

abbrev Compose := StateT Composer Option

namespace Compose

def peek : Compose (Option Token) := do
  return (← get).tokens.head?

def skip : Compose Unit :=
  modify fun c => { c with tokens := c.tokens.tail }

def isNext (ts : List Token) : Compose Bool := do
  return (← peek).any ts.contains

/-- Takes the given token if it is the next one, and tells whether it was. -/
def accept (t : Token) : Compose Bool := do
  if ← isNext [t] then
    skip
    return true
  else return false

def expect (t : Token) : Compose Unit := do
  if !(← accept t) then failure

def anchor? : Compose (Option Text) := do
  match ← peek with
  | some (.anchor name) =>
    skip
    return some name
  | _ => return none

def tag? : Compose (Option Text) := do
  match ← peek with
  | some (.tag handle suffix) =>
    skip
    match handle with
    | none => return some suffix
    | some h =>
      match (← get).handles.lookup h with
      | some front => return some (front ++ suffix)
      | none => failure
  | _ => return none

def properties : Compose (Option Text × Option Text) := do
  match ← anchor? with
  | some a => return (some a, ← tag?)
  | none =>
    match ← tag? with
    | some t => return (← anchor?, some t)
    | none => return (none, none)

/-- Which nodes may begin: in a flow collection, in a block, or in a block where a sequence need not
be indented. -/
inductive Context where
  | flow
  | block
  | indentless
  deriving DecidableEq

def define (name : Option Text) (node : Option Node) : Compose Unit :=
  match name with
  | none => pure ()
  | some n => modify fun c => { c with anchors := (n, node) :: c.anchors }

mutual

def node : (fuel : Nat) → Context → Compose Node
  | 0, _ => failure
  | fuel + 1, context => do
    match ← peek with
    | some (.alias name) =>
      skip
      match (← get).anchors.lookup name with
      | some (some n) => return n
      | some none => return .recursive
      | none => failure
    | _ =>
      let (anchor, tag) ← properties
      if let some a := anchor then
        if ((← get).anchors.lookup a).isSome then failure
      define anchor none
      let n ← content fuel context (anchor.isSome || tag.isSome) tag
      define anchor (some n)
      return n

/-- What follows the properties of a node. Only a node with properties may be left out here. -/
def content : (fuel : Nat) → Context → (proper : Bool) → (tag : Option Text) → Compose Node
  | 0, _, _, _ => failure
  | fuel + 1, context, proper, tag => do
    let isUnspecific := tag = some (Text.ofString "!")
    let said := if isUnspecific then none else tag
    let inBlock := context ≠ .flow
    match ← peek with
    | some .blockEntry =>
      if context = .indentless then return .sequence said (← indentlessItems fuel)
      else if proper then return .scalar said [] true
      else failure
    | some (.scalar text plain) =>
      skip
      return .scalar said text (plain || isUnspecific)
    | some .flowSequenceStart =>
      skip
      return .sequence said (← flowItems fuel true)
    | some .flowMappingStart =>
      skip
      return .mapping said (← flowPairs fuel true)
    | some .blockSequenceStart =>
      if inBlock then
        skip
        return .sequence said (← blockItems fuel)
      else if proper then return .scalar said [] true
      else failure
    | some .blockMappingStart =>
      if inBlock then
        skip
        return .mapping said (← blockPairs fuel)
      else if proper then return .scalar said [] true
      else failure
    | _ => if proper then return .scalar said [] true else failure

/-- The node before one of the given tokens, which may be left out. -/
def nodeBefore : (fuel : Nat) → Context → List Token → Compose Node
  | 0, _, _ => failure
  | fuel + 1, context, ends => do
    if ← isNext ends then return .absent else node fuel context

def blockItems : (fuel : Nat) → Compose (List Node)
  | 0 => failure
  | fuel + 1 => do
    if ← accept .blockEntry then
      let n ← nodeBefore fuel .block [.blockEntry, .blockEnd]
      return n :: (← blockItems fuel)
    else
      expect .blockEnd
      return []

def indentlessItems : (fuel : Nat) → Compose (List Node)
  | 0 => failure
  | fuel + 1 => do
    if ← accept .blockEntry then
      let n ← nodeBefore fuel .block [.blockEntry, .key, .value, .blockEnd]
      return n :: (← indentlessItems fuel)
    else return []

def blockPairs : (fuel : Nat) → Compose (List (Node × Node))
  | 0 => failure
  | fuel + 1 => do
    if ← accept .key then
      let k ← nodeBefore fuel .indentless [.key, .value, .blockEnd]
      let v ← if ← accept .value then nodeBefore fuel .indentless [.key, .value, .blockEnd]
        else pure .absent
      return (k, v) :: (← blockPairs fuel)
    else
      expect .blockEnd
      return []

/-- The items of a flow sequence. A key begins a mapping of one pair. -/
def flowItems : (fuel : Nat) → (first : Bool) → Compose (List Node)
  | 0, _ => failure
  | fuel + 1, first => do
    if ← accept .flowSequenceEnd then return []
    if !first then expect .flowEntry
    if ← accept .key then
      let k ← nodeBefore fuel .flow [.value, .flowEntry, .flowSequenceEnd]
      let v ← if ← accept .value then nodeBefore fuel .flow [.flowEntry, .flowSequenceEnd]
        else pure .absent
      return .mapping none [(k, v)] :: (← flowItems fuel false)
    else if ← accept .flowSequenceEnd then return []
    else
      let n ← node fuel .flow
      return n :: (← flowItems fuel false)

def flowPairs : (fuel : Nat) → (first : Bool) → Compose (List (Node × Node))
  | 0, _ => failure
  | fuel + 1, first => do
    if ← accept .flowMappingEnd then return []
    if !first then expect .flowEntry
    if ← accept .key then
      let k ← nodeBefore fuel .flow [.value, .flowEntry, .flowMappingEnd]
      let v ← if ← accept .value then nodeBefore fuel .flow [.flowEntry, .flowMappingEnd]
        else pure .absent
      return (k, v) :: (← flowPairs fuel false)
    else if ← accept .flowMappingEnd then return []
    else
      let k ← node fuel .flow
      return (k, .absent) :: (← flowPairs fuel false)

end

def directives : (fuel : Nat) → (versioned : Bool) → Compose Unit
  | 0, _ => failure
  | fuel + 1, versioned => do
    match ← peek with
    | some (.versionDirective major _) =>
      skip
      if versioned || major ≠ 1 then failure
      directives fuel true
    | some (.tagDirective handle front) =>
      skip
      if ((← get).handles.lookup handle).isSome then failure
      modify fun c => { c with handles := (handle, front) :: c.handles }
      directives fuel versioned
    | some .otherDirective =>
      skip
      directives fuel versioned
    | _ => pure ()

/-- The handles that need no directive. -/
def standardHandles : List (Text × Text) :=
  [(Text.ofString "!", Text.ofString "!"),
   (Text.ofString "!!", Text.ofString "tag:yaml.org,2002:")]

/-- The document of a stream, if it has one; a second one is not allowed. -/
def document (fuel : Nat) : Compose (Option Node) := do
  match ← peek with
  | none => return none
  | some t =>
    let isExplicit := match t with
      | .documentStart | .versionDirective _ _ | .tagDirective _ _ | .otherDirective => true
      | _ => false
    if isExplicit then
      directives fuel false
      expect .documentStart
    modify fun c => { c with handles := c.handles ++ standardHandles }
    let isEmpty ← isEmptyDocument isExplicit
    let n ← if isEmpty then pure .absent else node fuel .block
    dropEnds fuel
    if (← peek).isSome then failure
    return some n
where
  isEmptyDocument (isExplicit : Bool) : Compose Bool := do
    if !isExplicit then return false
    match ← peek with
    | none | some .documentStart | some .documentEnd => return true
    | some (.versionDirective _ _) | some (.tagDirective _ _) | some .otherDirective => return true
    | _ => return false
  dropEnds : Nat → Compose Unit
    | 0 => pure ()
    | n + 1 => do
      if ← accept .documentEnd then dropEnds n

end Compose

/-- The document of a text. The outer option is failure, the inner one the absence of a document. -/
def document? (t : Text) : Option (Option Node) := do
  let tokens ← tokens? t
  let (n, _) ← (Compose.document (4 * tokens.length + 8)).run { tokens }
  return n

end TaskContract.Yaml
