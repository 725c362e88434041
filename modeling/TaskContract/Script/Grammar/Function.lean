import TaskContract.Script.Grammar.Pattern

/-!
# Blocks, functions and classes

What has a body: statement blocks, functions and methods with their parameters, classes with their
members and decorators.
-/

namespace TaskContract.Script

mutual

def endsInBlock : Node → Bool
  | .mk kind _ _ _ children =>
    endsInBlockAll (kind = .statementBlock || kind = .classBody) children

def endsInBlockAll (inBlock : Bool) : List Node → Bool
  | [] => false
  | [n] => (inBlock && n.kind = .token "\x7d") || endsInBlock n
  | _ :: rest => endsInBlockAll inBlock rest

end

namespace Grammar

open Script.Parser

/-- May a `<!--` comment stand behind the statement before? Behind a block it may only where the
layout ends the statement. -/
def htmlBehind : Option Piece → Parser Bool
  | some p => if endsInBlock p.node then statementEnds false else return true
  | none => return true

/-- Statements up to a closing brace or the end of the script; within a `switch`, also up to the
next clause. Comments behind the last one are among the parts. -/
def statements (g : Grammar) (inSwitch : Bool) : Parser (List Piece) := do
  let parts ← loop (fun (parts : List Piece) => do
    let html ← htmlBehind parts.head?
    let c := ((← get).toToken html).2
    let atEnd := c.rest.isEmpty || c.startsWith "\x7d"
      || (inSwitch && (c.word = "case" || c.word = "default"))
    if atEnd then return none
    else return some ((← g.statement html) :: parts)) []
  let html ← htmlBehind parts.head?
  let (comments, c) := (← get).toToken html
  set c
  return parts.reverse ++ comments.map fun node => { node }

def block (g : Grammar) : Parser Piece := do
  let opening ← mark "\x7b"
  let body ← g.statements false
  let closing ← mark "\x7d"
  return Piece.make .statementBlock (opening :: body ++ [closing])

/-- An item of a list that may yet become a list of parameters: an expression, or three dots and
one. -/
def item (g : Grammar) (ctx : Context) : Parser Piece := do
  match ← mark? "..." with
  | [dots] => do
    let e ← g.expression ctx
    return { Piece.make .spreadElement [dots, e] with patternOnly := e.patternOnly }
  | _ => g.expression ctx

def formalParameters (g : Grammar) : Parser Piece := do
  let parts ← listWithHoles "(" ")" (g.item { cover := true })
  let rec noHoles : List Piece → Bool
    | a :: b :: rest =>
      !(b.node.kind = .token "," && (a.node.kind = .token "(" || a.node.kind = .token ","))
        && noHoles (b :: rest)
    | _ => true
  if !noHoles parts then failure
  match parameters? parts with
  | some parts => return Piece.make .formalParameters parts
  | none => failure

/-- A function from the word `function` on: its parts and whether it is a generator and has a
name. -/
def functionRest (g : Grammar) : Parser (List Piece × Bool × Bool) := do
  let keyword ← word "function"
  let star ← mark? "*"
  let named := (← next).atName
  let name ← if named then pure [(← name .identifier).as .name] else pure []
  let parameters ← g.formalParameters
  let body ← g.block
  return (keyword :: star ++ name ++ [parameters, body], !star.isEmpty, named)

def functionExpression (g : Grammar) (async : List Piece) : Parser Piece := do
  let (parts, isGenerator, _) ← g.functionRest
  return Piece.make (if isGenerator then .generatorFunction else .functionExpression)
    (async ++ parts)

/-- The name of a member: a word, a private name, a string, a number, or an expression in
brackets. -/
def memberName (g : Grammar) : Parser Piece := do
  let c ← next
  match c.rest with
  | '"' :: _ => string
  | '\'' :: _ => string
  | '[' :: _ => do
    let opening ← mark "["
    let e ← g.expression {}
    let closing ← mark "]"
    return Piece.make .computedPropertyName [opening, e, closing]
  | '#' :: rest => do
    let n := nameLength c.left rest
    if n = 0 then failure else leaf .privatePropertyIdentifier (n + 1)
  | _ => number <|> anyWord .propertyIdentifier

/-- A word before a member, where it is not the member's name itself. Within a class the layout may
end the member behind the word. -/
def modifier (inClass : Bool) (text : String) (starMayFollow : Bool) : Parser (List Piece) := do
  let before ← get
  match ← word? text with
  | [w] => do
    let ended ← if inClass then statementEnds false else pure false
    let c ← next
    if !ended && (c.atMemberName || (starMayFollow && c.startsWith "*")) then return [w]
    else do
      set before
      return []
  | _ => return []

/-- The words and the star before the name of a member. -/
def modifiers (inClass : Bool) : Parser (List Piece) := do
  let isStatic ← modifier inClass "static" true
  let async ← modifier inClass "async" true
  let getter ← modifier inClass "get" false
  let setter ← if getter.isEmpty then modifier inClass "set" false else pure []
  let star ← if getter.isEmpty && setter.isEmpty then mark? "*" else pure []
  return isStatic ++ async ++ getter ++ setter ++ star

def methodRest (g : Grammar) (front : List Piece) : Parser Piece := do
  let parameters ← g.formalParameters
  let body ← g.block
  return Piece.make .methodDefinition (front ++ [parameters, body])

def arguments (g : Grammar) : Parser Piece := do
  let c := ((← get).toToken false).2
  if !c.startsWith "(" then failure
  let parts ← listWithHoles "(" ")" (do
    let (comments, c) := (← get).toToken true
    set c
    let e ← g.item {}
    return { e with comments := comments ++ e.comments })
  return Piece.make .arguments parts

def decorator (g : Grammar) : Parser Piece := do
  let at_ ← mark "@"
  let first ← name .identifier
  let target ← loop (fun (p : Piece) => do
    let c ← next
    if c.startsWith "." then do
      let dot ← mark "."
      let property ← anyWord .propertyIdentifier
      return some (Piece.make .memberExpression [p.as .object, dot, property.as .property])
    else return none) first
  let c ← next
  if c.startsWith "(" then do
    let arguments ← g.arguments
    let call := Piece.make .callExpression [target.as .function, arguments.as .arguments]
    return Piece.make .decorator [at_, call]
  else return Piece.make .decorator [at_, target]

def decorators (g : Grammar) : Parser (List Piece) := do
  let parts ← loop (fun parts => do
    if (← next).startsWith "@" then return some ((← g.decorator) :: parts) else return none) []
  return parts.reverse

def classMember (g : Grammar) : Parser (List Piece) := do
  let decorators ← g.decorators
  let c ← next
  let behindStatic := (c.advance 6).next
  if c.word = "static" && behindStatic.startsWith "\x7b" && decorators.isEmpty then do
    let keyword ← word "static"
    let body ← g.block
    return [Piece.make .classStaticBlock [keyword, body]]
  else do
    let front ← modifiers true
    let key ← g.memberName
    let front := decorators ++ front ++ [key]
    if (← next).startsWith "(" then do
      let method ← g.methodRest front
      return method :: (← mark? ";")
    else do
      if front.any fun p => ["async", "get", "set", "*"].any fun t => p.node.kind = .token t then
        failure
      let c ← next
      if markAt c.rest = "=" then do
        let equals ← mark "="
        let value ← g.expression { statementEnd := true }
        let field := Piece.make .fieldDefinition (front ++ [equals, value.as .value])
        return field :: (← semicolon true)
      else return Piece.make .fieldDefinition front :: (← semicolon false)

def classBody (g : Grammar) : Parser Piece := do
  let opening ← mark "\x7b"
  let parts ← loop (fun (parts : List Piece) => do
    let c ← next
    if c.startsWith "\x7d" then return none
    else if c.startsWith ";" then return some ((← mark ";") :: parts)
    else return some ((← g.classMember).reverse ++ parts)) [opening]
  let closing ← mark "\x7d"
  return Piece.make .classBody (parts.reverse ++ [closing])

/-- A class from the word `class` on, and whether it has a name. -/
def classRest (g : Grammar) : Parser (List Piece × Bool) := do
  let keyword ← word "class"
  let named := (← next).atName
  let name ← if named then pure [(← name .identifier).as .name] else pure []
  let heritage ←
    if (← next).word = "extends" then do
      let extends_ ← word "extends"
      let e ← g.expression {}
      pure [Piece.make .classHeritage [extends_, e]]
    else pure []
  let body ← g.classBody
  return (keyword :: name ++ heritage ++ [body], named)

end Grammar

end TaskContract.Script
