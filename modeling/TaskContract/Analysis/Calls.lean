import TaskContract.Analysis.Exports
import TaskContract.Script.Escape

/-!
# Calls of interest

Reading a call off the tree: the member it calls, its arguments, and the text that a literal
argument stands for.
-/

namespace TaskContract.Analysis

open Script

/-- Why a script has no contract although it is a module. -/
inductive CallError where
  /-- A call of the given name outside of every exported function. -/
  | outsideStage (call : Text) (location : Location)
  /-- A literal name holds an escape without a value. -/
  | escape (cause : EscapeError)
  deriving DecidableEq

/-- The object and the property of a member expression with a plain property name. -/
def memberParts? (s : Source) (n : Node) : Option (Node × Text) := do
  if n.kind ≠ .memberExpression then none
  else
    let object ← n.child? .object
    let property ← n.child? .property
    if property.kind = .propertyIdentifier then some (object, s.nodeText property) else none

def calledMember? (s : Source) (call : Node) : Option (Node × Text) := do
  if call.kind ≠ .callExpression then none
  else memberParts? s (← call.child? .function)

def isName (s : Source) (name : Text) (n : Node) : Bool :=
  n.kind = .identifier && s.nodeText n = name

/-- The arguments of a call. A template that is applied to directly is the only argument. -/
def callArguments (call : Node) : List Node :=
  match call.child? .arguments with
  | none => []
  | some a =>
    if a.kind = .templateString then [a]
    else a.namedChildren.filter fun c => c.kind ≠ .comment

/-- The source text between the quotes of a string or template. -/
def innerText (s : Source) (n : Node) : Text :=
  ((s.nodeText n).drop 1).dropLast

/-- The text that a literal stands for; `none` for anything but a literal. A template with
substitutions stands for its own source text. -/
def literalText? (s : Source) (n : Node) : Except EscapeError (Option Text) :=
  match n.kind with
  | .string => (unescape (innerText s n)).map some
  | .templateString =>
    if n.namedChildren.any fun c => c.kind = .templateSubstitution then .ok (some (innerText s n))
    else (unescape (innerText s n)).map some
  | _ => .ok none

end TaskContract.Analysis
