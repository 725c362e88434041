import TaskContract.Script.Grammar.Basic

/-!
# Patterns

A destructuring pattern reads like an array or an object, and what it is shows only behind it. So
the literal is parsed first and is turned into a pattern when an arrow, an assignment or a loop
header asks for one. `asPattern` is total on nodes and fails where no pattern can be written.
-/

namespace TaskContract.Script

inductive PatternPlace where
  /-- A target: a name, a member or a nested pattern. -/
  | target
  /-- An item of an array pattern or a parameter: a target, one with a default, or the rest. -/
  | item
  /-- The value of a pair: a target or one with a default. -/
  | value
  /-- A member of an object pattern. -/
  | member
  /-- A part that stays as it is. -/
  | kept
  deriving DecidableEq

def patternKind? (place : PatternPlace) (kind : Kind) : Option Kind :=
  let target : Option Kind :=
    match kind with
    | .identifier | .undefined | .memberExpression | .subscriptExpression | .objectPattern
    | .arrayPattern => some kind
    | .object => some .objectPattern
    | .array => some .arrayPattern
    | _ => none
  match place, kind with
  | .kept, _ => some kind
  | .target, _ => target
  | .item, .spreadElement => some .restPattern
  | .item, .assignmentExpression => some .assignmentPattern
  | .item, _ => target
  | .value, .assignmentExpression => some .assignmentPattern
  | .value, _ => target
  | .member, .pair => some .pairPattern
  | .member, .shorthandPropertyIdentifier => some .shorthandPropertyIdentifierPattern
  | .member, .objectAssignmentPattern => some kind
  | .member, .spreadElement => some .restPattern
  | .member, _ => none

def childPlace (place : PatternPlace) (parent : Kind) (child : Node) : PatternPlace :=
  if place = .kept then .kept
  else
    match child.kind with
    | .token _ | .comment | .htmlComment => .kept
    | _ =>
      match parent with
      | .object => .member
      | .array => .item
      | .assignmentExpression => if child.role = some .left then .target else .kept
      | .pair => if child.role = some .value then .value else .kept
      | .spreadElement => .target
      | _ => .kept

mutual

def asPattern (place : PatternPlace) : Node → Option Node
  | .mk kind role start stop children =>
    match patternKind? place kind, asPatterns place kind children with
    | some kind', some children' => some (.mk kind' role start stop children')
    | _, _ => none

def asPatterns (place : PatternPlace) (parent : Kind) : List Node → Option (List Node)
  | [] => some []
  | n :: rest =>
    match asPattern (childPlace place parent n) n, asPatterns place parent rest with
    | some n', some rest' => some (n' :: rest')
    | _, _ => none

end

def Piece.asPattern? (place : PatternPlace) (p : Piece) : Option Piece :=
  (asPattern place p.node).map fun node => { p with node, patternOnly := false }

/-- The parts of a parameter list, marks included, with each item as a parameter. -/
def parameters? (parts : List Piece) : Option (List Piece) :=
  parts.mapM fun p =>
    match p.node.kind with
    | .token _ => some p
    | _ => p.asPattern? .item

end TaskContract.Script
