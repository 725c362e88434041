import TaskContract.Script.EarlyError
import TaskContract.Analysis.Contract
import TaskContract.Script.Occurrence

/-!
# Exported functions

An export statement without a `default` token declares stages: a function declaration, or each
variable that a function is the value of. A node belongs to the stage whose function holds its
span, in the innermost export statement around it.
-/

namespace TaskContract.Analysis

open Script

/-- An exported function: the name it is exported by, and its node. -/
structure ExportedFunction where
  name : Text
  function : Node

/-- Is the node an export statement other than a default export? -/
def isNamedExport (n : Node) : Bool :=
  n.kind = .exportStatement && !n.hasToken "default"

def isFunctionValue : Kind → Bool
  | .arrowFunction | .functionExpression | .generatorFunction => true
  | _ => false

def variableFunction? (s : Source) (d : Node) : Option ExportedFunction :=
  if d.kind = .variableDeclarator then
    match d.child? .name, d.child? .value with
    | some name, some value =>
      if name.kind = .identifier && isFunctionValue value.kind then
        some ⟨s.nodeText name, value⟩
      else none
    | _, _ => none
  else none

def functionVariables (s : Source) (declaration : Node) : List ExportedFunction :=
  declaration.namedChildren.filterMap (variableFunction? s)

/-- The functions that an export statement declares, in source order. -/
def exportedFunctions (s : Source) (n : Node) : List ExportedFunction :=
  match n.child? .declaration with
  | none => []
  | some d =>
    match d.kind with
    | .functionDeclaration | .generatorFunctionDeclaration =>
      ((d.child? .name).map fun name => ⟨s.nodeText name, d⟩).toList
    | .lexicalDeclaration | .variableDeclaration => functionVariables s d
    | _ => []

def stageOf? (s : Source) (o : Occurrence) : Option Text := do
  let n ← o.within? (· = .exportStatement)
  if isNamedExport n then
    (exportedFunctions s n).findSome? fun f =>
      if f.function.encloses o.node then some f.name else none
  else none

def stagesOf (s : Source) (n : Node) : List Stage :=
  if isNamedExport n then
    (exportedFunctions s n).map fun f =>
      { name := f.name, order := (s.location n.start).line, isAsync := isAsync f.function }
  else []

/-- The stages of a script, by the lines of their exports. -/
def stages (s : Source) (root : Node) : List Stage :=
  (root.preorder.flatMap (stagesOf s)).mergeSort fun a b => a.order ≤ b.order

end TaskContract.Analysis
