import TaskContract.Script.Grammar.Markup

/-!
# Expressions

An operand is read by its first token, then what may follow it, then the operators by how tightly
they bind. Arrow functions and assignments may stand wherever an operand may, and take what follows
them as far as it goes.
-/

namespace TaskContract.Script

/-- How tightly an operator between two operands binds, and whether it groups to the right. -/
structure Binding where
  level : Nat
  toTheRight : Bool := false

/-- The operators between two operands, the loosest at level 1. -/
def binding? (operator : String) : Option Binding :=
  match operator with
  | "??" => some { level := 1 }
  | "||" => some { level := 2 }
  | "&&" => some { level := 3 }
  | "|" => some { level := 4 }
  | "^" => some { level := 5 }
  | "&" => some { level := 6 }
  | "==" | "!=" | "===" | "!==" => some { level := 7 }
  | "<" | "<=" | ">" | ">=" | "in" | "instanceof" => some { level := 8 }
  | "<<" | ">>" | ">>>" => some { level := 9 }
  | "+" | "-" => some { level := 10 }
  | "*" | "/" | "%" => some { level := 11 }
  | "**" => some { level := 12, toTheRight := true }
  | _ => none

def assignmentMarks : List String :=
  ["+=", "-=", "*=", "/=", "%=", "**=", "<<=", ">>=", ">>>=", "&=", "^=", "|=", "&&=", "||=", "??="]

def operatorAt (c : Cursor) : String :=
  let w := c.word
  if w = "in" || w = "instanceof" then w else markAt c.rest

/-- Is a question mark here that asks for the two branches of a condition? One with a point behind
it is, if a digit follows the point. -/
def asksCondition : List Char → Bool
  | '?' :: '?' :: _ => false
  | '?' :: '.' :: rest => rest.head?.any Char.isDigit
  | '?' :: _ => true
  | _ => false

/-- Is the kind one of an expression to which a template may be applied directly? -/
def isPrimary : Kind → Bool
  | .subscriptExpression | .memberExpression | .parenthesizedExpression | .identifier | .undefined
  | .this | .super | .number | .string | .templateString | .regex | .true | .false | .null
  | .object | .array | .functionExpression | .generatorFunction | .classExpression | .metaProperty
  | .callExpression => true
  | _ => false

/-- May a value be assigned to an expression of the kind by an operator such as `+=`? -/
def isUpdatable : Kind → Bool
  | .memberExpression | .subscriptExpression | .identifier | .parenthesizedExpression => true
  | _ => false

namespace Grammar

open Script.Parser

def arrowRest (g : Grammar) (ctx : Context) (front : List Piece) : Parser Piece := do
  let arrow ← mark "=>"
  let body ←
    if (← next).startsWith "\x7b" then g.block <|> g.expression ctx.plain
    else g.expression ctx.plain
  return Piece.make .arrowFunction (front ++ [arrow, body])

/-- A list in parentheses: the parameters of an arrow function or expressions. -/
def parenthesized (g : Grammar) (ctx : Context) : Parser Piece := do
  let parts ← listWithHoles "(" ")" (g.item { cover := true })
  if (← next).startsWith "=>" then
    match parameters? parts with
    | some parameters => g.arrowRest ctx [Piece.make .formalParameters parameters]
    | none => failure
  else
    match parts with
    | opening :: rest => do
      let inner := rest.dropLast
      let closing := rest.getLast?.toList
      let rec alternates : List Piece → Bool
        | [] => false
        | [p] => !isComma p
        | p :: q :: more => !isComma p && isComma q && alternates more
      if !alternates inner || anyPatternOnly inner
          || inner.any (fun p => p.node.kind = .spreadElement) then failure
      let content := match inner with
        | [p] => p
        | _ => Piece.make .sequenceExpression inner
      return Piece.make .parenthesizedExpression (opening :: content :: closing)
    | [] => failure
where
  isComma (p : Piece) : Bool := p.node.kind = .token ","

/-- What behind an operand begins with the word `new`: its constructor with members and templates
but no call, and then the arguments. -/
def newExpression (g : Grammar) (ctx : Context) (base : Parser Piece) : Parser Piece := do
  let keyword ← word "new"
  let c ← next
  if c.startsWith "." then do
    let dot ← mark "."
    let target ← word "target"
    return Piece.make .metaProperty [keyword, dot, target]
  else do
    let constructor ← base
    let c ← get
    let ended := ctx.statementEnd && c.statementEnds true
    let arguments ←
      if !ended && (← next).startsWith "(" then pure [(← g.arguments).as .arguments] else pure []
    return Piece.make .newExpression (keyword :: constructor :: arguments)

def postfixStep (g : Grammar) (ctx : Context) (calls : Bool) (p : Piece) :
    Parser (Option Piece) := do
  if p.patternOnly then return none
  if ctx.statementEnd && (← statementEnds true) then return none
  let c ← next
  let member (point : Piece) : Parser (Option Piece) := do
    let c ← next
    let property ←
      match c.rest with
      | '#' :: _ => g.memberName
      | _ => anyWord .propertyIdentifier
    return some (Piece.make .memberExpression [p.as .object, point, property.as .property])
  let subscript (point : List Piece) : Parser (Option Piece) := do
    let opening ← mark "["
    let index ← g.expressions {}
    let closing ← mark "]"
    return some (Piece.make .subscriptExpression
      (p.as .object :: point ++ [opening, index, closing]))
  match markAt c.rest with
  | "?." =>
    if asksCondition c.rest then return none
    else do
      let point ← leaf .optionalChain 2
      let c ← next
      if c.startsWith "(" then
        if isPrimary p.node.kind && calls then do
          let arguments ← g.arguments
          return some (Piece.make .callExpression
            [p.as .function, point, arguments.as .arguments])
        else failure
      else if c.startsWith "[" then subscript [point]
      else member point
  | "." => do
    let point ← mark "."
    member point
  | "[" => subscript []
  | "(" =>
    if calls then do
      let arguments ← g.arguments
      return some (Piece.make .callExpression [p.as .function, arguments.as .arguments])
    else return none
  | "`" =>
    if isPrimary p.node.kind || p.node.kind = .newExpression then do
      let template ← g.template
      return some (Piece.make .callExpression [p.as .function, template.as .arguments])
    else return none
  | "++" =>
    if calls then return some (Piece.make .updateExpression [p, ← mark "++"]) else return none
  | "--" =>
    if calls then return some (Piece.make .updateExpression [p, ← mark "--"]) else return none
  | _ => return none

/-- A word that begins an operand and is neither an operator nor a function nor a class. -/
def plainWord (c : Cursor) : Option Kind :=
  match c.word with
  | "" => none
  | "this" => some .this
  | "super" => some .super
  | "true" => some .true
  | "false" => some .false
  | "null" => some .null
  | "undefined" => some .undefined
  | "export" => some .identifier
  | w => if reservedWords.contains w then none else some .identifier

def nameOrArrow (g : Grammar) (ctx : Context) : Parser Piece := do
  let c ← next
  match plainWord c with
  | none => failure
  | some kind => do
    let p ← leaf kind (nameLength c.left c.rest)
    if (kind = .identifier || kind = .undefined) && (← next).startsWith "=>" then
      g.arrowRest ctx [p.rename .identifier]
    else return p

def asyncOperand (g : Grammar) (ctx : Context) : Parser Piece := do
  let c ← next
  let behind := c.advance 5
  let c' := behind.next
  if ctx.statementEnd && behind.statementEnds true then leaf .identifier 5
  else if c'.word = "function" then do
    let async ← word "async"
    g.functionExpression [async]
  else if c'.atName && (c'.advance (nameLength c'.left c'.rest)).next.startsWith "=>" then do
    let async ← word "async"
    let parameter ← name .identifier
    g.arrowRest ctx [async, parameter]
  else if c'.startsWith "(" then
    (do
      let async ← word "async"
      let parameters ← g.formalParameters
      g.arrowRest ctx [async, parameters]) <|> g.nameOrArrow ctx
  else g.nameOrArrow ctx

def atOperand (c : Cursor) : Bool :=
  match c.rest with
  | [] => false
  | ch :: rest =>
    if "([\x7b\"'`/+-!~@#".toList.contains ch then true
    else if ch = '<' then !(rest.head? = some '=' || rest.head? = some '<')
    else if ch = '.' then rest.head?.any Char.isDigit
    else if ch.isDigit then true
    else
      let w := c.word
      w ≠ "" && (!reservedWords.contains w || ["this", "super", "true", "false", "null", "new",
        "function", "class", "import", "typeof", "void", "delete"].contains w)

/-- What begins with the word `await`: an awaited operand, or a name where no operand follows. -/
def awaitOperand (g : Grammar) (ctx : Context) : Parser Piece := do
  let behind := (← next).advance 5
  if ctx.statementEnd && behind.statementEnds true then leaf .identifier 5
  else if atOperand behind.next then
    (do
      let keyword ← word "await"
      let e ← g.unary ctx.plain
      return Piece.make .awaitExpression [keyword, e]) <|> g.nameOrArrow ctx
  else g.nameOrArrow ctx

def yieldOperand (g : Grammar) (ctx : Context) : Parser Piece := do
  let keyword ← word "yield"
  if ctx.statementEnd && (← statementEnds true) then return Piece.make .yieldExpression [keyword]
  let c ← next
  if c.startsWith "*" then do
    let star ← mark "*"
    let e ← g.expression ctx.plain
    return Piece.make .yieldExpression [keyword, star, e]
  else if atOperand c then do
    let e ← g.expression ctx.plain
    return Piece.make .yieldExpression [keyword, e]
  else return Piece.make .yieldExpression [keyword]

def importOperand : Parser Piece := do
  let c ← next
  let behind := (c.advance 6).next
  if behind.startsWith "." then do
    let keyword ← leaf .importWord 6
    let dot ← mark "."
    let property ← anyWord .propertyIdentifier
    return Piece.make (if behind.next.startsWith ".meta" then .metaProperty else .memberExpression)
      [keyword, dot, property]
  else if behind.startsWith "(" then leaf .importWord 6
  else failure

def wordOperand (g : Grammar) (ctx : Context) : Parser Piece := do
  let c ← next
  match c.word with
  | "function" => g.functionExpression []
  | "class" => do
    let (parts, _) ← g.classRest
    return Piece.make .classExpression parts
  | "async" => g.asyncOperand ctx
  | "await" => g.awaitOperand ctx
  | "yield" => g.yieldOperand ctx
  | "import" => importOperand
  | w =>
    if w = "typeof" || w = "void" || w = "delete" then do
      let operator ← word w
      let e ← g.unary ctx.plain
      return Piece.make .unaryExpression [operator, e]
    else g.nameOrArrow ctx

/-- The operand at the cursor, by its first character, without what follows it. -/
def base (g : Grammar) (ctx : Context) : (depth : Nat) → Parser Piece
  | 0 => failure
  | depth + 1 => do
    let (comments, c) := (← get).toToken true
    set c
    let p ← match c.rest with
      | [] => failure
      | ch :: rest =>
        if ch = '(' then g.parenthesized ctx
        else if ch = '[' then g.array
        else if ch = '\x7b' then g.object
        else if ch = '"' || ch = '\'' then string
        else if ch = '`' then g.template
        else if ch = '/' then regex
        else if ch = '<' then g.markupElement (c.left + 1)
        else if ch.isDigit || (ch = '.' && rest.head?.any Char.isDigit) then number
        else if ch = '#' then do
          let name ← g.memberName
          if (← next).word = "in" then pure name else failure
        else if ch = '@' then do
          let decorators ← g.decorators
          let (parts, _) ← g.classRest
          pure (Piece.make .classExpression (decorators ++ parts))
        else if ch = '+' || ch = '-' then do
          let m := markAt c.rest
          let update := m = "++" || m = "--"
          let operator ← mark (if update then m else String.singleton ch)
          let e ← g.unary ctx.plain
          pure (Piece.make (if update then .updateExpression else .unaryExpression) [operator, e])
        else if ch = '!' || ch = '~' then do
          let operator ← mark (String.singleton ch)
          let e ← g.unary ctx.plain
          pure (Piece.make .unaryExpression [operator, e])
        else if c.word = "new" then
          g.newExpression ctx (do
            let constructor ← base g {} depth
            if !constructor.patternOnly
                && (isPrimary constructor.node.kind || constructor.node.kind = .newExpression) then
              loop (g.postfixStep ctx false) constructor
            else failure)
        else g.wordOperand ctx
    return { p with comments := comments ++ p.comments }

def assignment (g : Grammar) (ctx : Context) (p : Piece) : Parser Piece := do
  if ctx.statementEnd && (← statementEnds true) then return p
  let m := markAt (← next).rest
  if m = "=" then
    let target :=
      if p.node.kind = .parenthesizedExpression then some p else p.asPattern? .target
    match target with
    | some target => do
      let equals ← mark "="
      let value ← g.expression ctx.plain
      return Piece.make .assignmentExpression [target.as .left, equals, value]
    | none => return p
  else if assignmentMarks.contains m && isUpdatable p.node.kind && !p.patternOnly then do
    let operator ← mark m
    let value ← g.expression ctx.plain
    return Piece.make .augmentedAssignmentExpression [p, operator, value]
  else return p

/-- An operand with what is behind it, and the assignment that it may begin. -/
def operand (g : Grammar) (ctx : Context) : Parser Piece := do
  let depth := (← get).left + 1
  let p ← g.base ctx depth
  let p ← loop (g.postfixStep ctx true) p
  let p ← g.assignment ctx p
  if p.patternOnly && !ctx.cover then failure
  return p

/-- An expression whose operators bind at least as tightly as the level. -/
def operators (g : Grammar) (ctx : Context) (level : Nat) : Parser Piece := do
  let first ← g.operand ctx
  if first.patternOnly then return first
  loop (fun left => do
    if ctx.statementEnd && (← statementEnds true) then return none
    let c ← next
    let operator := operatorAt c
    match binding? operator with
    | none => return none
    | some b =>
      if b.level < level || (operator = "in" && ctx.noIn) then return none
      else do
        let mark ← leaf (.token operator) operator.length
        let right ← g.binary ctx.plain (if b.toTheRight then b.level else b.level + 1)
        return some (Piece.make .binaryExpression [left, mark, right])) first

def oneExpression (g : Grammar) (ctx : Context) : Parser Piece := do
  let first ← g.operators ctx 1
  if first.patternOnly then return first
  if ctx.statementEnd && (← statementEnds true) then return first
  if asksCondition (← next).rest then do
    let question ← mark "?"
    let yes ← g.expression { noIn := false }
    let colon ← mark ":"
    let no ← g.expression ctx.plain
    return Piece.make .ternaryExpression [first, question, yes, colon, no]
  else return first

end Grammar

end TaskContract.Script
