import TaskContract.Script.Grammar.Function

/-!
# Templates, arrays and objects
-/

namespace TaskContract.Script

namespace Grammar

open Script.Parser

def template (g : Grammar) : Parser Piece := do
  let opening ← mark "`"
  let parts ← loop (fun (parts : List Piece) => do
    let c ← get
    match templateCharsLength? c.rest with
    | none => failure
    | some 0 =>
      match c.rest with
      | '\\' :: _ =>
        match escapeLength? c.rest with
        | some n => return some ((← leafHere .escapeSequence n) :: parts)
        | none => failure
      | '$' :: _ => do
        let start ← leafHere (.token "$\x7b") 2
        let e ← g.expressions {}
        let stop ← mark "\x7d"
        return some (Piece.make .templateSubstitution [start, e, stop] :: parts)
      | _ => return none
    | some n => return some ((← leafHere .stringFragment n) :: parts)) [opening]
  let closing ← leafHere (.token "`") 1
  return Piece.make .templateString (parts.reverse ++ [closing])

/-- Does one of the parts make sense only in a pattern? -/
def anyPatternOnly (parts : List Piece) : Bool :=
  parts.any fun p => p.patternOnly

def array (g : Grammar) : Parser Piece := do
  let parts ← listWithHoles "[" "]" (g.item { cover := true })
  return { Piece.make .array parts with patternOnly := anyPatternOnly parts }

def objectMember (g : Grammar) : Parser Piece := do
  let c ← next
  if c.startsWith "..." then g.item { cover := true }
  else do
    let front ← modifiers false
    let c ← next
    let isName := (c.atName || c.word = "export") && front.isEmpty
    let key ← g.memberName
    let c ← next
    if c.startsWith "(" then g.methodRest (front ++ [key])
    else if !front.isEmpty then failure
    else if c.startsWith ":" then do
      let colon ← mark ":"
      let value ← g.expression { cover := true }
      return { Piece.make .pair [key.as .key, colon, value.as .value] with
        patternOnly := value.patternOnly }
    else if markAt c.rest = "=" && (isName || key.node.kind = .computedPropertyName) then do
      let left := if isName then some (key.rename .shorthandPropertyIdentifierPattern)
        else (key.rename .array).asPattern? .target
      match left with
      | none => failure
      | some left => do
        let equals ← mark "="
        let value ← g.expression {}
        return { Piece.make .objectAssignmentPattern [left.as .left, equals, value] with
          patternOnly := true }
    else if isName then return key.rename .shorthandPropertyIdentifier
    else failure

/-- An object, which may yet become a pattern. -/
def object (g : Grammar) : Parser Piece := do
  let parts ← listWithHoles "\x7b" "\x7d" g.objectMember
  return { Piece.make .object parts with patternOnly := anyPatternOnly parts }

def destructuring (g : Grammar) : Parser Piece := do
  let p ← if (← next).startsWith "[" then g.array else g.object
  match p.asPattern? .target with
  | some p => return p
  | none => failure

end Grammar

end TaskContract.Script
