/-!
# The syntax tree

A node has a kind, the role it plays in its parent where the analysis asks for one, a span of bytes
and its children, tokens and comments among them. Everything the analysis reads off a script is a
function on this tree.
-/

namespace TaskContract.Script

/-- The kind of a node. Tokens that only spell out the grammar are told apart by their text. -/
inductive Kind where
  | token (text : String)
  -- statements and declarations
  | program | hashBang | exportStatement | exportClause | exportSpecifier | namespaceExport
  | importStatement | importClause | importSpecifier | namedImports | namespaceImport
  | importAttribute | expressionStatement | variableDeclaration | lexicalDeclaration
  | usingDeclaration | variableDeclarator | statementBlock | elseClause | ifStatement
  | switchStatement | switchBody | switchCase | switchDefault | forStatement | forInStatement
  | whileStatement | doStatement | tryStatement | catchClause | finallyClause | withStatement
  | breakStatement | continueStatement | debuggerStatement | returnStatement | throwStatement
  | emptyStatement | labeledStatement | functionDeclaration | generatorFunctionDeclaration
  | classDeclaration
  -- expressions
  | parenthesizedExpression | sequenceExpression | yieldExpression | assignmentExpression
  | augmentedAssignmentExpression | awaitExpression | unaryExpression | binaryExpression
  | ternaryExpression | updateExpression | newExpression | arrowFunction | functionExpression
  | generatorFunction | classExpression | subscriptExpression | memberExpression | callExpression
  | metaProperty | optionalChain | object | array | pair | spreadElement | methodDefinition
  | computedPropertyName | arguments | importWord
  -- classes
  | classHeritage | classBody | fieldDefinition | classStaticBlock | decorator
  -- patterns
  | formalParameters | objectPattern | arrayPattern | pairPattern | restPattern
  | assignmentPattern | objectAssignmentPattern
  -- names and literals
  | identifier | statementIdentifier | propertyIdentifier | privatePropertyIdentifier
  | shorthandPropertyIdentifier | shorthandPropertyIdentifierPattern | undefined | this | super
  | true | false | null | number | string | stringFragment | escapeSequence | templateString
  | templateSubstitution | regex | regexPattern | regexFlags
  -- markup
  | jsxElement | jsxOpeningElement | jsxClosingElement | jsxSelfClosingElement | jsxAttribute
  | jsxExpression | jsxNamespaceName | jsxText | htmlCharacterReference
  -- between the tokens
  | comment | htmlComment
  deriving DecidableEq, Repr

/-- Is the node more than a token that only spells out the grammar? -/
def Kind.isNamed : Kind → Bool
  | .token _ => Bool.false
  | _ => Bool.true

inductive Role where
  | declaration | name | value | function | arguments | object | property | left | key
  deriving DecidableEq, Repr

inductive Node where
  | mk (kind : Kind) (role : Option Role) (start stop : Nat) (children : List Node)
  deriving Repr

instance : Inhabited Node := ⟨.mk .program none 0 0 []⟩

namespace Node

def kind : Node → Kind
  | mk kind _ _ _ _ => kind

def role : Node → Option Role
  | mk _ role _ _ _ => role

/-- The offset of the first byte. -/
def start : Node → Nat
  | mk _ _ start _ _ => start

/-- The offset behind the last byte. -/
def stop : Node → Nat
  | mk _ _ _ stop _ => stop

def children : Node → List Node
  | mk _ _ _ _ children => children

def withRole (r : Role) : Node → Node
  | mk kind _ start stop children => mk kind (some r) start stop children

def child? (n : Node) (r : Role) : Option Node :=
  n.children.find? fun c => c.role = some r

def namedChildren (n : Node) : List Node :=
  n.children.filter fun c => c.kind.isNamed

def hasToken (n : Node) (text : String) : Bool :=
  n.children.any fun c => c.kind = .token text

mutual

def size : Node → Nat
  | mk _ _ _ _ children => sizeAll children + 1

def sizeAll : List Node → Nat
  | [] => 0
  | n :: rest => size n + sizeAll rest

end

theorem sizeAll_append (front back : List Node) :
    sizeAll (front ++ back) = sizeAll front + sizeAll back := by
  induction front with
  | nil => simp [sizeAll]
  | cons n rest ih => simp [sizeAll, ih, Nat.add_assoc]

def encloses (outer inner : Node) : Bool :=
  outer.start ≤ inner.start && inner.stop ≤ outer.stop

end Node

end TaskContract.Script
