import TaskContract.Script.Occurrence
import TaskContract.Script.Source

/-!
# Early errors

Three things that the grammar accepts and a module must not hold: a `return` outside of every
function, an `await` in a function that is not asynchronous, and a name that one scope declares
twice. The tree is searched parent before child, so the names of a scope are compared before
anything inside it is looked at.
-/

namespace TaskContract.Script

def isFunction : Kind → Bool
  | .functionDeclaration | .generatorFunctionDeclaration | .functionExpression
  | .generatorFunction | .arrowFunction | .methodDefinition => true
  | _ => false

def isBlockScope : Kind → Bool
  | .program | .statementBlock => true
  | _ => false

inductive EarlyErrorKind where
  | returnOutsideFunction
  | awaitOutsideAsync
  | duplicate (name : Text)
  deriving DecidableEq

/-- What a module must not hold, and the node it is reported at. -/
structure EarlyError where
  kind : EarlyErrorKind
  node : Node

def EarlyErrorKind.message : EarlyErrorKind → Text
  | .returnOutsideFunction => Text.ofString "'return' outside of function"
  | .awaitOutsideAsync => Text.ofString "'await' is only allowed within async functions"
  | .duplicate name =>
    Text.ofString "Identifier '" ++ name ++ Text.ofString "' has already been declared"

def Source.nodeText (s : Source) (n : Node) : Text :=
  s.text n.start n.stop

def variableNames (declaration : Node) : List Node :=
  declaration.namedChildren.filterMap fun d =>
    if d.kind = .variableDeclarator then
      (d.child? .name).filter fun name => name.kind = .identifier
    else none

/-- The names that a statement of a scope declares. Functions count in the whole script only: in a
block they may be declared again. -/
def statementBindings (scope : Kind) (statement : Node) : List Node :=
  let declaration : Option Node :=
    if statement.kind = .exportStatement then statement.child? .declaration else some statement
  match declaration with
  | none => []
  | some d =>
    match d.kind with
    | .lexicalDeclaration => variableNames d
    | .classDeclaration => (d.child? .name).toList
    | .functionDeclaration | .generatorFunctionDeclaration =>
      if scope = .program then (d.child? .name).toList else []
    | _ => []

def scopeBindings (scope : Node) : List Node :=
  scope.namedChildren.flatMap (statementBindings scope.kind)

/-- The first node whose text an earlier one has too. -/
def firstRepeated? (s : Source) (seen : List Text) : List Node → Option Node
  | [] => none
  | n :: rest =>
    let text := s.nodeText n
    if seen.contains text then some n else firstRepeated? s (text :: seen) rest

def isAsync (function : Node) : Bool :=
  function.hasToken "async"

def earlyErrorAt? (s : Source) (o : Occurrence) : Option EarlyError :=
  match o.node.kind with
  | .returnStatement =>
    if (o.within? isFunction).isNone then some ⟨.returnOutsideFunction, o.node⟩ else none
  | .awaitExpression =>
    match o.within? isFunction with
    | some function => if isAsync function then none else some ⟨.awaitOutsideAsync, o.node⟩
    | none => none
  | kind =>
    if isBlockScope kind then
      (firstRepeated? s [] (scopeBindings o.node)).map fun n => ⟨.duplicate (s.nodeText n), n⟩
    else none

def earlyError? (s : Source) (root : Node) : Option EarlyError :=
  root.occurrences.findSome? (earlyErrorAt? s)

end TaskContract.Script
