import TaskContract.Analysis.Calls

/-!
# Model calls

Calls into the `llm` object: `llm.<provider>.<method>(...)`, and `<alias>.<method>(...)` where the
alias is destructured from `llm` anywhere in the script. The last destructuring that binds a name
decides what it stands for.
-/

namespace TaskContract.Analysis

open Script

def llmObject : Text := Text.ofString "llm"

/-- A local name and the provider it stands for. -/
abbrev Alias := Text × Text

/-- The alias that one property of a pattern over `llm` makes, if it binds a plain name. -/
def propertyAlias? (s : Source) (p : Node) : Option Alias :=
  match p.kind with
  | .shorthandPropertyIdentifierPattern => some (s.nodeText p, s.nodeText p)
  | .objectAssignmentPattern => do
    let left ← p.child? .left
    if left.kind = .shorthandPropertyIdentifierPattern then
      some (s.nodeText left, s.nodeText left)
    else none
  | .pairPattern => do
    let key ← p.child? .key
    let value ← p.child? .value
    if key.kind = .propertyIdentifier && value.kind = .identifier then
      some (s.nodeText value, s.nodeText key)
    else none
  | _ => none

def declaratorAliases (s : Source) (n : Node) : List Alias :=
  if n.kind ≠ .variableDeclarator then []
  else
    match n.child? .name, n.child? .value with
    | some pattern, some value =>
      if pattern.kind = .objectPattern && isName s llmObject value then
        pattern.namedChildren.filterMap (propertyAlias? s)
      else []
    | _, _ => []

/-- Sets what a name stands for, in its place if it is known. -/
def setAlias (aliases : List Alias) (a : Alias) : List Alias :=
  if aliases.any (fun b => b.1 = a.1) then
    aliases.map fun b => if b.1 = a.1 then a else b
  else aliases ++ [a]

def aliases (s : Source) (root : Node) : List Alias :=
  (root.preorder.flatMap (declaratorAliases s)).foldl setAlias []

def provider? (s : Source) (known : List Alias) (object : Node) : Option Text :=
  match memberParts? s object with
  | some (inner, name) =>
    if isName s llmObject inner then some name else none
  | none =>
    if object.kind = .identifier then known.lookup (s.nodeText object) else none

/-- The model call that a node makes: its provider and its method. -/
def modelCall? (s : Source) (known : List Alias) (n : Node) : Option (Text × Text) := do
  let (object, method) ← calledMember? s n
  let provider ← provider? s known object
  return (provider, method)

def modelCalls (s : Source) (root : Node) : Except CallError (List ModelCall) :=
  let known := aliases s root
  let found := root.occurrences.filterMap fun o => (modelCall? s known o.node).map fun c => (o, c)
  found.mapM fun (o, provider, method) =>
    match stageOf? s o with
    | some stage => .ok { provider, method, stage }
    | none => .error (.outsideStage (Text.ofString "LLM") (s.location o.node.start))

end TaskContract.Analysis
