import TaskContract.Script.Grammar.Literal

/-!
# Markup elements

Elements with tags, attributes, text and expressions in braces, as they stand among expressions.
-/

namespace TaskContract.Script

/-- The length of the text between tags, and whether it is more than blank lines. -/
def markupTextLength : List Char → (sawText atLineEnd : Bool) → Nat × Bool
  | [], sawText, _ => (0, sawText)
  | c :: rest, sawText, atLineEnd =>
    if c.toNat = 0 || "<>\x7b\x7d&".toList.contains c then (0, sawText)
    else
      let atLineEnd' := if c = '\n' then true else atLineEnd && isWideBlank c
      let sawText' := if c = '\n' then sawText else sawText || !atLineEnd'
      let (n, saw) := markupTextLength rest sawText' atLineEnd'
      (n + 1, saw)

def characterReferenceLength (cs : List Char) : Nat :=
  let closed (n : Nat) : Nat := if (cs.drop n).head? = some ';' then n + 1 else 0
  match cs with
  | '&' :: '#' :: x :: rest =>
    if x = 'x' || x = 'X' then
      let n := ((rest.take 6).takeWhile isHexDigit).length
      if n = 0 then 0 else closed (n + 3)
    else
      let n := (((x :: rest).take 5).takeWhile Char.isDigit).length
      if n = 0 then 0 else closed (n + 2)
  | '&' :: rest =>
    let n := ((rest.take 30).takeWhile Char.isAlpha).length
    if n = 0 then 0 else closed (n + 1)
  | _ => 0

namespace Grammar

open Script.Parser

def markupWord : Parser Piece := do
  let c ← next
  let isPart (ch : Char) : Bool := ch.isAlphanum || ch = '_' || ch = '$' || ch = '-'
  let joined := (c.rest.takeWhile isPart).length
  let plain := nameLength c.left c.rest
  if plain < joined && !(c.rest.head?.any Char.isDigit) && plain ≠ 0 then leaf .identifier joined
  else name .identifier

/-- The name of an element or an attribute: words joined by points, or two by a colon. -/
def markupName : Parser Piece := do
  let first ← markupWord
  if (← next).startsWith ":" then do
    let colon ← mark ":"
    let second ← markupWord
    return Piece.make .jsxNamespaceName [first, colon, second]
  else
    loop (fun (p : Piece) => do
      if (← next).startsWith "." then do
        let dot ← mark "."
        let property ← anyWord .propertyIdentifier
        return some (Piece.make .memberExpression [p.as .object, dot, property.as .property])
      else return none) first

def markupExpression (g : Grammar) : Parser Piece := do
  let opening ← mark "\x7b"
  let c ← next
  let inner ←
    if c.startsWith "\x7d" then pure []
    else if c.startsWith "..." then do pure [← g.item {}]
    else do pure [← g.expressions {}]
  let closing ← mark "\x7d"
  return Piece.make .jsxExpression (opening :: inner ++ [closing])

/-- A quoted attribute value: any text but the quote, and character references. -/
def markupString : Parser Piece := do
  let c ← next
  match c.rest with
  | q :: rest => do
    if q ≠ '"' && q ≠ '\'' then failure
    let n := (rest.takeWhile fun ch => ch ≠ q).length
    if (rest.drop n).isEmpty then failure
    leaf .string (n + 2)
  | [] => failure

def markupAttribute (g : Grammar) (element : Parser Piece) : Parser Piece := do
  if (← next).startsWith "\x7b" then g.markupExpression
  else do
    let name ← markupName
    if (← next).startsWith "=" then do
      let equals ← mark "="
      let c ← next
      let value ←
        if c.startsWith "\x7b" then g.markupExpression
        else if c.startsWith "<" then element
        else markupString
      return Piece.make .jsxAttribute [name, equals, value]
    else return Piece.make .jsxAttribute [name]

def markupContent (g : Grammar) (element : Parser Piece) (parts : List Piece) :
    Parser (List Piece) :=
  loop (fun (parts : List Piece) => do
    let c ← get
    let (n, sawText) := markupTextLength c.rest false false
    if sawText then return some ((← leafHere .jsxText n) :: parts)
    else do
      let c ← next
      if c.startsWith "</" then return none
      else if c.startsWith "<" then return some ((← element) :: parts)
      else if c.startsWith "\x7b" then return some ((← g.markupExpression) :: parts)
      else
        let n := characterReferenceLength c.rest
        if n = 0 then failure
        else return some ((← leaf .htmlCharacterReference n) :: parts)) parts

def markupElement (g : Grammar) : (depth : Nat) → Parser Piece
  | 0 => failure
  | depth + 1 => do
    let opening ← mark "<"
    if (← next).startsWith ">" then do
      let stop ← mark ">"
      finish depth (Piece.make .jsxOpeningElement [opening, stop])
    else do
      let name ← markupName
      let parts ← loop (fun (parts : List Piece) => do
        let c ← next
        if c.startsWith ">" || c.startsWith "/>" then return none
        else return some ((← g.markupAttribute (markupElement g depth)) :: parts)) [name, opening]
      match ← mark? "/>" with
      | [stop] => return Piece.make .jsxSelfClosingElement (parts.reverse ++ [stop])
      | _ => do
        let stop ← mark ">"
        finish depth (Piece.make .jsxOpeningElement (parts.reverse ++ [stop]))
where
  finish (depth : Nat) (opening : Piece) : Parser Piece := do
    let parts ← g.markupContent (markupElement g depth) [opening]
    let start ← mark "</"
    let name ← if (← next).startsWith ">" then pure [] else do pure [← markupName]
    let stop ← mark ">"
    return Piece.make .jsxElement
      (parts.reverse ++ [Piece.make .jsxClosingElement (start :: name ++ [stop])])

end Grammar

end TaskContract.Script
