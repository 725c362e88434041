import TaskContract.Script.Grammar.Expression

/-!
# Statements

Declarations, control flow and the module statements, which may stand wherever a statement may.
-/

namespace TaskContract.Script

namespace Grammar

open Script.Parser

def declarator (g : Grammar) (ctx : Context) : Parser Piece := do
  let c ← next
  let target ←
    if c.startsWith "\x7b" || c.startsWith "[" then g.destructuring else name .identifier
  let target := target.as .name
  if ctx.statementEnd && (← statementEnds false) then
    return Piece.make .variableDeclarator [target]
  else if markAt (← next).rest = "=" then do
    let equals ← mark "="
    let value ← g.expression ctx
    return Piece.make .variableDeclarator [target, equals, value.as .value]
  else return Piece.make .variableDeclarator [target]

def hasValue (p : Piece) : Bool :=
  (p.node.child? .value).isSome

/-- A declaration behind its first words: the variables and the end of the statement. -/
def declarationRest (g : Grammar) (kind : Kind) (front : List Piece) : Parser Piece := do
  let ctx : Context := { statementEnd := true }
  let first ← g.declarator ctx
  let parts ← loop (fun (parts : List Piece) => do
    if ← statementEnds (parts.head?.any hasValue) then return none
    match ← mark? "," with
    | [comma] => return some ((← g.declarator ctx) :: comma :: parts)
    | _ => return none) [first]
  let stop ← semicolon (parts.head?.any hasValue)
  return Piece.make kind (front ++ parts.reverse ++ stop)

def bindings (g : Grammar) : Parser Piece := do
  let c ← next
  match c.word with
  | "var" => g.declarationRest .variableDeclaration [← word "var"]
  | "let" => g.declarationRest .lexicalDeclaration [← word "let"]
  | "const" => g.declarationRest .lexicalDeclaration [← word "const"]
  | "using" => g.declarationRest .usingDeclaration [← word "using"]
  | "await" => do
    let await_ ← word "await"
    let using_ ← word "using"
    g.declarationRest .usingDeclaration [await_, using_]
  | _ => failure

def functionDeclaration (g : Grammar) : Parser Piece := do
  let async ← word? "async"
  let (parts, isGenerator, named) ← g.functionRest
  if !named then failure
  return Piece.make (if isGenerator then .generatorFunctionDeclaration else .functionDeclaration)
    (async ++ parts)

def classDeclaration (g : Grammar) : Parser Piece := do
  let decorators ← g.decorators
  let (parts, named) ← g.classRest
  if !named then failure
  return Piece.make .classDeclaration (decorators ++ parts)

/-- Does the next token continue an expression, so that what stands before it cannot be a statement
of its own? -/
def continuesExpression : Parser Bool := do
  if ← statementEnds true then return false
  let c ← next
  let m := operatorAt c
  return [".", "?.", ",", "=", "?"].contains m || assignmentMarks.contains m
    || ((binding? m).isSome && !(["+", "-", "/", "<"].contains m))

def declaration (g : Grammar) : Parser Piece := do
  let c ← next
  match c.word with
  | "function" => g.functionDeclaration
  | "async" => g.functionDeclaration
  | "class" => g.classDeclaration
  | "" => if c.startsWith "@" then g.classDeclaration else failure
  | _ => g.bindings

def moduleName (kind : Kind) : Parser Piece := do
  let c ← next
  if c.word = "default" then word "default"
  else if c.atName then name kind
  else string

/-- The names in braces of an import or an export. A comma may stand behind the last one, and alone
where there is none. -/
def specifiers (list item : Kind) : Parser Piece := do
  let opening ← mark "\x7b"
  let parts ← loop (fun (parts : List Piece) => do
    if (← next).startsWith "\x7d" then return none
    if parts.length = 1 && (← next).startsWith "," then
      let comma ← mark ","
      if (← next).startsWith "\x7d" then return some (comma :: parts)
      failure
    if parts.length ≠ 1 && !(parts.head?.any fun p => p.node.kind = .token ",") then return none
    let first ← moduleName .identifier
    let spec ←
      if (← next).word = "as" then do
        let as_ ← word "as"
        let second ← if item = .importSpecifier then name .identifier else moduleName .identifier
        pure (Piece.make item [first, as_, second])
      else if item = .importSpecifier && first.node.kind ≠ .identifier then failure
      else pure (Piece.make item [first])
    return some (match ← mark? "," with
      | [comma] => comma :: spec :: parts
      | _ => spec :: parts)) [opening]
  let closing ← mark "\x7d"
  return Piece.make list (parts.reverse ++ [closing])

/-- The module that names come from. -/
def fromClause : Parser (List Piece) := do
  let from_ ← word "from"
  let source ← string
  return [from_, source]

def exportNames (front : List Piece) : Parser Piece := do
  let c ← next
  if c.startsWith "*" then do
    let star ← mark "*"
    let names ←
      if (← next).word = "as" then do
        let as_ ← word "as"
        let n ← moduleName .identifier
        pure (Piece.make .namespaceExport [star, as_, n])
      else pure star
    let source ← fromClause
    let stop ← semicolon false
    return Piece.make .exportStatement (front ++ names :: source ++ stop)
  else do
    let names ← specifiers .exportClause .exportSpecifier
    let ended ← statementEnds false
    let source ← if !ended && (← next).word = "from" then fromClause else pure []
    let stop ← semicolon false
    return Piece.make .exportStatement (front ++ names :: source ++ stop)

def exportRest (g : Grammar) (front : List Piece) : Parser Piece := do
  let c ← next
  if c.startsWith "*" || c.startsWith "\x7b" then exportNames front
  else if c.word = "default" then do
    let default_ ← word "default"
    let front := front ++ [default_]
    (do
      let d ← g.declaration
      if ← continuesExpression then failure
      return Piece.make .exportStatement (front ++ [d.as .declaration])) <|> (do
      let e ← g.expression { statementEnd := true }
      let stop ← semicolon true
      return Piece.make .exportStatement (front ++ e.as .value :: stop))
  else do
    let d ← g.declaration
    return Piece.make .exportStatement (front ++ [d.as .declaration])

def importStatement (g : Grammar) : Parser Piece := do
  let keyword ← word "import"
  let c ← next
  let namespaceImport : Parser Piece := do
    let star ← mark "*"
    let as_ ← word "as"
    let n ← name .identifier
    return Piece.make .namespaceImport [star, as_, n]
  let named : Parser Piece := do
    if (← next).startsWith "*" then namespaceImport
    else specifiers .namedImports .importSpecifier
  let source ←
    if c.startsWith "\"" || c.startsWith "'" then do pure [← string]
    else do
      let clause ←
        if c.startsWith "*" || c.startsWith "\x7b" then do pure [← named]
        else do
          let first ← name .identifier
          match ← mark? "," with
          | [comma] => pure [first, comma, ← named]
          | _ => pure [first]
      let source ← fromClause
      pure (Piece.make .importClause clause :: source)
  let ended ← statementEnds false
  let attributes ←
    if !ended && (← next).word = "with" then do
      let with_ ← word "with"
      let o ← g.object
      if o.patternOnly then failure
      pure [Piece.make .importAttribute [with_, o]]
    else pure []
  let stop ← semicolon false
  return Piece.make .importStatement (keyword :: source ++ attributes ++ stop)

def condition (g : Grammar) : Parser Piece := do
  let opening ← mark "("
  let e ← g.expressions {}
  let closing ← mark ")"
  return Piece.make .parenthesizedExpression [opening, e, closing]

def ifStatement (g : Grammar) : Parser Piece := do
  let keyword ← word "if"
  let test ← g.condition
  let body ← g.statement true
  if (← next).word = "else" then do
    let else_ ← word "else"
    let other ← g.statement true
    return Piece.make .ifStatement [keyword, test, body, Piece.make .elseClause [else_, other]]
  else return Piece.make .ifStatement [keyword, test, body]

/-- Does a loop header begin with `let` or `async` as the name of its variable? It does where `of`
follows: the word belongs to the loop wherever a loop can go on with it. -/
def namesItsVariable : Parser Bool := do
  let c ← next
  if c.word = "let" || c.word = "async" then
    let before ← get
    let _ ← word c.word
    let behind ← next
    set before
    return behind.word = "of"
  else return false

/-- The header of a loop over the items of a value, from behind its opening parenthesis to behind
its closing one. -/
def loopHeader (g : Grammar) : Parser (List Piece) := do
  let c ← next
  let target : Parser Piece := do
    let c ← next
    if c.startsWith "\x7b" || c.startsWith "[" then g.destructuring else name .identifier
  let declared (words : List String) : Parser (List Piece) := do
    let words ← words.mapM word
    let t ← target
    return words ++ [t.as .left]
  let left : Parser (List Piece) :=
    match c.word with
    | "var" => do
      let parts ← declared ["var"]
      if markAt (← next).rest = "=" then do
        let equals ← mark "="
        let value ← g.expression { noIn := true }
        return parts ++ [equals, value.as .value]
      else return parts
    | "let" => do if ← namesItsVariable then pattern else declared ["let"] <|> pattern
    | "const" => declared ["const"]
    | "using" => declared ["using"] <|> pattern
    | "await" => declared ["await", "using"] <|> pattern
    | _ => pattern
  let parts ← left
  let operator ← word "in" <|> word "of"
  let right ← g.expressions {}
  let closing ← mark ")"
  return parts ++ [operator, right, closing]
where
  pattern : Parser (List Piece) := do
    let ctx : Context := { noIn := true, cover := true }
    let p ← g.base ctx ((← get).left + 1)
    let p ← loop (g.postfixStep ctx true) p
    if p.node.kind = .parenthesizedExpression then return [p.as .left]
    match p.asPattern? .target with
    | some p => return [p.as .left]
    | none => failure

/-- The header of a loop with a counter, from behind its opening parenthesis. -/
def counterHeader (g : Grammar) : Parser (List Piece) := do
  let c ← next
  let clause : Parser (List Piece) := do
    if (← next).startsWith ";" then return [Piece.make .emptyStatement [← mark ";"]]
    else do
      let e ← g.expressions {}
      return [e, ← mark ";"]
  let first ←
    if ["var", "let", "const"].contains c.word then
      (do pure [← g.bindings]) <|> clause
    else clause
  let second ← clause
  let third ← if (← next).startsWith ")" then pure [] else do pure [← g.expressions {}]
  let closing ← mark ")"
  return first ++ second ++ third ++ [closing]

def forStatement (g : Grammar) : Parser Piece := do
  let keyword ← word "for"
  let await_ ← word? "await"
  let opening ← mark "("
  let front := keyword :: await_ ++ [opening]
  let settled ← namesItsVariable
  (do
    let header ← g.loopHeader
    let body ← g.statement true
    return Piece.make .forInStatement (front ++ header ++ [body])) <|> (do
    if settled || !await_.isEmpty then failure
    let header ← g.counterHeader
    let body ← g.statement true
    return Piece.make .forStatement (front ++ header ++ [body]))

def doStatement (g : Grammar) : Parser Piece := do
  let do_ ← word "do"
  let body ← g.statement true
  let while_ ← word "while"
  let test ← g.condition
  let ended ← statementEnds false
  let stop ← if ended then pure [] else mark? ";"
  return Piece.make .doStatement ([do_, body, while_, test] ++ stop)

def switchBody (g : Grammar) : Parser Piece := do
  let opening ← mark "\x7b"
  let parts ← loop (fun (parts : List Piece) => do
    match (← next).word with
    | "case" => do
      let case_ ← word "case"
      let value ← g.expressions {}
      let colon ← mark ":"
      let body ← g.statements true
      return some (Piece.make .switchCase ([case_, value.as .value, colon] ++ body) :: parts)
    | "default" => do
      let default_ ← word "default"
      let colon ← mark ":"
      let body ← g.statements true
      return some (Piece.make .switchDefault ([default_, colon] ++ body) :: parts)
    | _ => return none) [opening]
  let closing ← mark "\x7d"
  return Piece.make .switchBody (parts.reverse ++ [closing])

def tryStatement (g : Grammar) : Parser Piece := do
  let try_ ← word "try"
  let body ← g.block
  let handler ←
    if (← next).word = "catch" then do
      let catch_ ← word "catch"
      let parameter ←
        if (← next).startsWith "(" then do
          let opening ← mark "("
          let c ← next
          let p ←
            if c.startsWith "\x7b" || c.startsWith "[" then g.destructuring else name .identifier
          let closing ← mark ")"
          pure [opening, p, closing]
        else pure []
      let handler ← g.block
      pure [Piece.make .catchClause (catch_ :: parameter ++ [handler])]
    else pure []
  let finalizer ←
    if (← next).word = "finally" then do
      let finally_ ← word "finally"
      let finalizer ← g.block
      pure [Piece.make .finallyClause [finally_, finalizer]]
    else pure []
  return Piece.make .tryStatement (try_ :: body :: handler ++ finalizer)

/-- A statement that jumps, with the label it jumps to if that is given. -/
def jump (kind : Kind) (keyword : String) : Parser Piece := do
  let k ← word keyword
  if ← statementEnds false then return Piece.make kind [k]
  let label ← if (← next).atName then pure [← name .statementIdentifier] else pure []
  let stop ← semicolon false
  return Piece.make kind (k :: label ++ stop)

def returnStatement (g : Grammar) : Parser Piece := do
  let keyword ← word "return"
  if ← statementEnds false then return Piece.make .returnStatement [keyword]
  match ← mark? ";" with
  | [stop] => return Piece.make .returnStatement [keyword, stop]
  | _ => do
    let e ← g.expressions { statementEnd := true }
    let stop ← semicolon true
    return Piece.make .returnStatement (keyword :: e :: stop)

def throwStatement (g : Grammar) : Parser Piece := do
  let keyword ← word "throw"
  let e ← g.expressions { statementEnd := true }
  let stop ← semicolon true
  return Piece.make .throwStatement (keyword :: e :: stop)

def expressionStatement (g : Grammar) : Parser Piece := do
  let e ← g.expressions { statementEnd := true }
  let stop ← semicolon true
  return Piece.make .expressionStatement (e :: stop)

def labeledStatement (g : Grammar) : Parser Piece := do
  let label ← anyWord .statementIdentifier
  let colon ← mark ":"
  let body ← g.statement true
  return Piece.make .labeledStatement [label, colon, body]

/-- A declaration, unless what follows shows that it is the start of an expression. -/
def declarationOrExpression (g : Grammar) (d : Parser Piece) : Parser Piece :=
  (do
    let d ← d
    if ← continuesExpression then failure
    return d) <|> g.expressionStatement

def nameStatement (g : Grammar) : Parser Piece := do
  let c ← next
  let behind := (c.advance (nameLength c.left c.rest)).next
  if behind.startsWith ":" && !(["yield", "undefined"].contains c.word) then g.labeledStatement
  else g.expressionStatement

def wordStatement (g : Grammar) (c : Cursor) : Parser Piece := do
  let behind := c.advance c.word.length
  let after := behind.next
  match c.word with
  | "export" =>
    if behind.statementEnds true then g.expressionStatement
    else (do
      let keyword ← word "export"
      g.exportRest [keyword]) <|> g.nameStatement
  | "import" =>
    if after.startsWith "(" || after.startsWith "." then g.expressionStatement
    else g.importStatement
  | "var" => g.bindings
  | "const" => g.bindings
  | "let" =>
    if behind.statementEnds true then g.expressionStatement
    else if after.atName || after.startsWith "\x7b" || after.startsWith "[" then g.bindings
    else g.nameStatement
  | "using" => g.bindings
  | "await" =>
    if !behind.statementEnds true && after.word = "using" then g.bindings else g.nameStatement
  | "function" => g.declarationOrExpression g.functionDeclaration
  | "async" =>
    if !behind.statementEnds true && after.word = "function" then
      g.declarationOrExpression g.functionDeclaration
    else g.nameStatement
  | "class" => g.declarationOrExpression g.classDeclaration
  | "if" => g.ifStatement
  | "switch" => do
    let keyword ← word "switch"
    let value ← g.condition
    let body ← g.switchBody
    return Piece.make .switchStatement [keyword, value, body]
  | "for" => g.forStatement
  | "while" => do
    let keyword ← word "while"
    let test ← g.condition
    let body ← g.statement true
    return Piece.make .whileStatement [keyword, test, body]
  | "do" => g.doStatement
  | "try" => g.tryStatement
  | "with" => do
    let keyword ← word "with"
    let value ← g.condition
    let body ← g.statement true
    return Piece.make .withStatement [keyword, value, body]
  | "break" => jump .breakStatement "break"
  | "continue" => jump .continueStatement "continue"
  | "debugger" => do
    let keyword ← word "debugger"
    let stop ← semicolon false
    return Piece.make .debuggerStatement (keyword :: stop)
  | "return" => g.returnStatement
  | "throw" => g.throwStatement
  | _ => g.nameStatement

def oneStatement (g : Grammar) (html : Bool) : Parser Piece := do
  let (comments, c) := (← get).toToken html
  set c
  let p ←
    if c.startsWith ";" then do pure (Piece.make .emptyStatement [← mark ";"])
    else if c.startsWith "\x7b" then
      (do
        let b ← g.block
        if ← continuesExpression then failure
        pure b) <|> g.expressionStatement
    else if c.startsWith "@" then
      (do
        let decorators ← g.decorators
        let keyword ← word "export"
        g.exportRest (decorators ++ [keyword])) <|> g.declarationOrExpression g.classDeclaration
    else if c.word = "" then g.expressionStatement
    else g.wordStatement c
  return { p with comments := comments ++ p.comments }

end Grammar

/-- The grammar of a number of levels. -/
def grammar : (levels : Nat) → Grammar
  | 0 => .nothing
  | levels + 1 =>
    let g := grammar levels
    { expression := g.oneExpression
      binary := g.operators
      unary := g.operand
      statement := g.oneStatement }

def scriptParts (g : Grammar) : Parser (List Piece) := do
  let c ← get
  let first ←
    if c.startsWith "#!" then do
      pure [← Parser.leafHere .hashBang (c.rest.takeWhile fun ch => ch ≠ '\n').length]
    else pure []
  let body ← g.statements false
  return first ++ body

def parseChars (cs : List Char) : Option Node :=
  match (scriptParts (grammar (cs.length + 2))).run (.ofChars cs) with
  | some (parts, c) =>
    if c.rest.isEmpty then
      let nodes := parts.flatMap Piece.nodes
      let start := (nodes.head?.map Node.start).getD c.offset
      some (.mk .program none start c.offset nodes)
    else none
  | none => none

end TaskContract.Script
