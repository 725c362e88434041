import TaskContract.Script.Token

/-!
# The grammar's open recursion

Expressions, statements and literals contain each other. Each part of the grammar is a parser over
a `Grammar`, the parsers for what is nested one level deeper; the knot is tied by a count of levels,
of which a script of `n` characters cannot need more than `n`.
-/

namespace TaskContract.Script

/-- What the surroundings of an expression allow. -/
structure Context where
  /-- May a statement end behind the expression, by the layout alone? -/
  statementEnd : Bool := false
  /-- Does the word `in` belong to the surroundings? -/
  noIn : Bool := false
  /-- May the expression turn out to be a pattern? -/
  cover : Bool := false

def Context.plain (ctx : Context) : Context := { ctx with cover := false }

/-- The parsers for what is nested one level deeper. -/
structure Grammar where
  /-- One expression, without a comma. -/
  expression : Context → Parser Piece
  /-- An expression whose operators bind at least as tightly as the level. -/
  binary : Context → (level : Nat) → Parser Piece
  /-- An operand with what is behind it. -/
  unary : Context → Parser Piece
  /-- A statement; the flag says whether a `<!--` comment may stand before it. -/
  statement : Bool → Parser Piece

def Grammar.nothing : Grammar where
  expression _ := failure
  binary _ _ := failure
  unary _ := failure
  statement _ := failure

namespace Grammar

open Script.Parser

def expressions (g : Grammar) (ctx : Context) : Parser Piece := do
  let first ← g.expression ctx
  let parts ← loop (fun parts => do
    if ctx.statementEnd && (← statementEnds true) then return none
    match ← mark? "," with
    | [comma] => return some ((← g.expression ctx) :: comma :: parts)
    | _ => return none) [first]
  return if parts.length = 1 then first else Piece.make .sequenceExpression parts.reverse

/-- The parts between two marks: items, each of which may be absent, with commas between them. The
marks are among the parts, and the closing one ends the list. -/
def listWithHoles (opening closing : String) (item : Parser Piece) : Parser (List Piece) := do
  let first ← mark opening
  let c ← next
  let parts ←
    if c.startsWith closing || c.startsWith "," then pure [first]
    else do pure [← item, first]
  let parts ← loop (fun parts => do
    match ← mark? "," with
    | [comma] =>
      let c ← next
      if c.startsWith closing || c.startsWith "," then return some (comma :: parts)
      else return some ((← item) :: comma :: parts)
    | _ => return none) parts
  let last ← mark closing
  return (last :: parts).reverse

end Grammar

end TaskContract.Script
