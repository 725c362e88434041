import TaskContract.Script.Node

/-!
# Reading position, blanks and comments

A cursor is what is left of a script and the byte offset it stands at. A parser is a function from
a cursor to a result and a later cursor; where it fails, nothing is consumed, so that alternatives
start over at the same place.
-/

namespace TaskContract.Script

/-- A place in the script: what is left of it, how many characters that is, and the offset of its
first byte. -/
structure Cursor where
  rest : List Char
  left : Nat
  offset : Nat

def Cursor.ofChars (cs : List Char) : Cursor := ⟨cs, cs.length, 0⟩

def Cursor.advance : (n : Nat) → Cursor → Cursor
  | 0, c => c
  | n + 1, ⟨ch :: rest, left, offset⟩ => Cursor.advance n ⟨rest, left - 1, offset + ch.utf8Size⟩
  | _ + 1, c => c

abbrev Parser (α : Type) := StateT Cursor Option α

/-- A node, with the comments that stand before it. -/
structure Piece where
  comments : List Node := []
  node : Node
  /-- Does it make sense only as a pattern? -/
  patternOnly : Bool := false

namespace Piece

def nodes (p : Piece) : List Node :=
  p.comments ++ [p.node]

def as (r : Role) (p : Piece) : Piece :=
  { p with node := p.node.withRole r }

/-- A node over its parts in order. Comments before the first part stay before the node. -/
def make (kind : Kind) (parts : List Piece) : Piece :=
  match parts with
  | [] => { node := .mk kind none 0 0 [] }
  | first :: rest =>
    let stop := (rest.getLast?.getD first).node.stop
    { comments := first.comments
      node := .mk kind none first.node.start stop (first.node :: rest.flatMap nodes) }

def rename (kind : Kind) (p : Piece) : Piece :=
  match p.node with
  | .mk _ role start stop children => { p with node := .mk kind role start stop children }

end Piece

/-! ## Character classes -/

def isBlank (c : Char) : Bool :=
  let n := c.toNat
  (9 ≤ n && n ≤ 13) || n = 0x20 || n = 0xA0 || n = 0x1680 || (0x2000 ≤ n && n ≤ 0x200B)
    || n = 0x2028 || n = 0x2029 || n = 0x202F || n = 0x205F || n = 0x2060 || n = 0x3000
    || n = 0xFEFF

/-- A blank in the look for the end of a statement. It differs from `isBlank` in the no-break
spaces and the characters of no width. -/
def isWideBlank (c : Char) : Bool :=
  let n := c.toNat
  (9 ≤ n && n ≤ 13) || n = 0x20 || n = 0x1680 || (0x2000 ≤ n && n ≤ 0x2006)
    || (0x2008 ≤ n && n ≤ 0x200A) || n = 0x2028 || n = 0x2029 || n = 0x205F || n = 0x3000

def isLineEnd (c : Char) : Bool :=
  c = '\n' || c.toNat = 0x2028 || c.toNat = 0x2029

def isNameChar (c : Char) : Bool :=
  0x20 ≤ c.toNat && !isBlank c && !":;`\"'@#.,|^&<=>+-*/\\%?!~()[]\x7b\x7d".toList.contains c

def isNameStart (c : Char) : Bool :=
  isNameChar c && !c.isDigit

def isHexDigit (c : Char) : Bool :=
  c.isDigit || ('a' ≤ c && c ≤ 'f') || ('A' ≤ c && c ≤ 'F')

/-! ## Comments -/

/-- The length of a block comment's rest, from behind its opening to behind its end. -/
def blockCommentLength? : List Char → Option Nat
  | '*' :: '/' :: _ => some 2
  | _ :: rest => (blockCommentLength? rest).map (· + 1)
  | [] => none

def commentLength? : List Char → Option Nat
  | '/' :: '/' :: rest =>
    some (2 + (rest.takeWhile fun c => !(isLineEnd c || c = '\r')).length)
  | '/' :: '*' :: rest => (blockCommentLength? rest).map (· + 2)
  | _ => none

def htmlCommentLength? : List Char → Option Nat
  | '<' :: '!' :: '-' :: '-' :: rest =>
    some (4 + (rest.takeWhile fun c => !(isLineEnd c) && c.toNat ≠ 0).length)
  | '-' :: '-' :: '>' :: rest =>
    some (3 + (rest.takeWhile fun c => !(isLineEnd c) && c.toNat ≠ 0).length)
  | _ => none

def Cursor.leaf (kind : Kind) (length : Nat) (c : Cursor) : Node × Cursor :=
  let c' := c.advance length
  (.mk kind none c.offset c'.offset [], c')

/-- Moves over blanks and comments, and gives the comments in reverse. Comments of the `<!--` form
are known only where an operand or a statement may begin. -/
def skipTrivia (html : Bool) : (fuel : Nat) → List Node → Cursor → List Node × Cursor
  | 0, seen, c => (seen, c)
  | fuel + 1, seen, c =>
    match c.rest with
    | [] => (seen, c)
    | ch :: _ =>
      if isBlank ch then skipTrivia html fuel seen (c.advance 1)
      else
        match commentLength? c.rest with
        | some length =>
          let (node, c') := c.leaf .comment length
          skipTrivia html fuel (node :: seen) c'
        | none =>
          match if html then htmlCommentLength? c.rest else none with
          | some length =>
            let (node, c') := c.leaf .htmlComment length
            skipTrivia html fuel (node :: seen) c'
          | none => (seen, c)

/-- The comments before the next token, and the cursor at that token. -/
def Cursor.toToken (html : Bool) (c : Cursor) : List Node × Cursor :=
  let (seen, c') := skipTrivia html (c.left + 1) [] c
  (seen.reverse, c')

def Cursor.next (c : Cursor) : Cursor :=
  (c.toToken false).2

/-! ## The end of a statement -/

/-- What a run of blanks and comments says about the end of a statement. -/
inductive BlankRun where
  | rejected
  | sameLine
  | mayEnd
  deriving DecidableEq

/-- The rest behind a block comment and whether the comment holds a line end; `none` for the rest
if the script ends first. -/
def behindBlockComment : List Char → Bool → Option (List Char) × Bool
  | '*' :: '/' :: rest, seen => (some rest, seen)
  | c :: rest, seen => behindBlockComment rest (seen || isLineEnd c)
  | [], seen => (none, seen)

/-- Scans blanks and comments. Unless all of them are to be consumed, the scan stops behind a block
comment that no further comment directly follows. -/
def scanBlanks (consume : Bool) : (fuel : Nat) → Bool → List Char → BlankRun × List Char
  | 0, _, cs => (.mayEnd, cs)
  | fuel + 1, newline, cs =>
    let cs := cs.dropWhile isWideBlank
    match cs with
    | '/' :: '/' :: rest =>
      scanBlanks consume fuel newline (rest.dropWhile fun c => !isLineEnd c && c.toNat ≠ 0)
    | '/' :: '*' :: rest =>
      match behindBlockComment rest newline with
      | (none, _) => (.mayEnd, [])
      | (some rest', newline') =>
        if rest'.head? ≠ some '/' && !consume then
          (if newline' then .mayEnd else .sameLine, rest')
        else scanBlanks consume fuel newline' rest'
    | '/' :: rest => (.rejected, rest)
    | _ => (.mayEnd, cs)

/-- May the token that the next line begins with not continue the statement before it? -/
def beginsStatement : List Char → Bool
  | '.' :: c :: _ => c.isDigit
  | '.' :: [] => false
  | '+' :: rest => rest.head? = some '+'
  | '-' :: rest => rest.head? = some '-'
  | '!' :: rest => rest.head? ≠ some '='
  | 'i' :: 'n' :: rest =>
    let isLetter (c : Option Char) : Bool := c.any fun c => c.isAlpha || 0x80 ≤ c.toNat
    if !isLetter rest.head? then false
    else if "stanceof".toList.isPrefixOf rest then isLetter (rest.drop 8).head?
    else true
  | c :: _ => !"`,:;*%><=[(?^|&/".toList.contains c
  | [] => true

/-- Does the script say here, without a semicolon, that the statement ends: by its own end, by a
closing brace, or by a line end before something that does not continue the statement? A comment
counts as a line end where an operand is yet to come. -/
def endsStatement (afterOperand : Bool) : (fuel : Nat) → List Char → Bool
  | 0, _ => false
  | fuel + 1, cs =>
    let decide (cs : List Char) : Bool :=
      match cs with
      | [] => false
      | c :: rest =>
        if c = '\x7d' then true
        else if isLineEnd c then
          match scanBlanks true (fuel + 1) false rest with
          | (.rejected, _) => false
          | (_, rest') => beginsStatement rest'
        else if isWideBlank c then endsStatement afterOperand fuel rest
        else false
    match cs with
    | [] => true
    | '\x00' :: _ => true
    | '/' :: _ =>
      match scanBlanks false (fuel + 1) false cs with
      | (.rejected, _) => false
      | (run, rest) =>
        if run = .mayEnd && !afterOperand && rest.head? ≠ some ',' && rest.head? ≠ some '='
        then true
        else decide rest
    | _ => decide cs

/-- Does the statement end at the cursor without a semicolon? A comment that does not end it is
passed over, and the question is asked again behind it. -/
def statementEndsFrom (afterOperand : Bool) : (fuel : Nat) → Cursor → Bool
  | 0, _ => false
  | fuel + 1, c =>
    if endsStatement afterOperand (c.left + 1) c.rest then true
    else
      let blanks := (c.rest.takeWhile isBlank).length
      let c' := c.advance blanks
      match commentLength? c'.rest with
      | some length => statementEndsFrom afterOperand fuel (c'.advance length)
      | none => false

def Cursor.statementEnds (c : Cursor) (afterOperand : Bool) : Bool :=
  statementEndsFrom afterOperand (c.left + 1) c

end TaskContract.Script
