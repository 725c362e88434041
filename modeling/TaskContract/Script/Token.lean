import TaskContract.Script.Cursor

/-!
# Tokens

The parsers of single tokens. Which tokens are looked for depends on the place in the grammar, so a
slash is read as a division or as the start of a regular expression by the parser that asks.
-/

namespace TaskContract.Script

def reservedWords : List String :=
  ["break", "case", "catch", "class", "const", "continue", "debugger", "default", "delete", "do",
   "else", "export", "extends", "false", "finally", "for", "function", "if", "import", "in",
   "instanceof", "new", "null", "return", "super", "switch", "this", "throw", "true", "try",
   "typeof", "var", "void", "while", "with"]

def nameEscapeLength? : List Char → Option Nat
  | '\\' :: 'u' :: '\x7b' :: rest =>
    let digits := (rest.takeWhile isHexDigit).length
    if digits ≠ 0 ∧ (rest.drop digits).head? = some '\x7d' then some (digits + 4) else none
  | '\\' :: 'u' :: rest =>
    let digits := rest.take 4
    if digits.length = 4 ∧ digits.all isHexDigit then some 6 else none
  | _ => none

def nameRestLength : (fuel : Nat) → List Char → Nat
  | 0, _ => 0
  | fuel + 1, cs =>
    match cs with
    | [] => 0
    | c :: rest =>
      if isNameChar c then nameRestLength fuel rest + 1
      else
        match nameEscapeLength? cs with
        | some n => nameRestLength fuel (cs.drop n) + n
        | none => 0

/-- The length of the name that the text begins with; zero if there is none. -/
def nameLength (fuel : Nat) (cs : List Char) : Nat :=
  match cs with
  | [] => 0
  | c :: rest =>
    if isNameStart c then nameRestLength fuel rest + 1
    else
      match nameEscapeLength? cs with
      | some n => nameRestLength fuel (cs.drop n) + n
      | none => 0

/-- The word at the cursor, without moving; empty if there is none. -/
def Cursor.word (c : Cursor) : String :=
  String.ofList (c.rest.take (nameLength c.left c.rest))

def Cursor.atName (c : Cursor) : Bool :=
  let w := c.word
  w ≠ "" && !reservedWords.contains w

def Cursor.atMemberName (c : Cursor) : Bool :=
  c.word ≠ "" ||
    match c.rest with
    | ch :: rest =>
      ch = '"' || ch = '\'' || ch = '[' || ch = '#' || ch.isDigit
        || (ch = '.' && (rest.head?.any Char.isDigit))
    | [] => false

def Cursor.startsWith (c : Cursor) (text : String) : Bool :=
  text.toList.isPrefixOf c.rest

/-- The longest mark of several characters or one that the text begins with. -/
def markAt (cs : List Char) : String :=
  let long := [">>>=", "...", "===", "!==", "**=", "<<=", ">>=", ">>>", "&&=", "||=", "??=", "=>",
    "==", "!=", "<=", ">=", "&&", "||", "??", "?.", "++", "--", "+=", "-=", "*=", "/=", "%=", "&=",
    "|=", "^=", "<<", ">>", "**"]
  match long.find? fun m => m.toList.isPrefixOf cs with
  | some m => m
  | none => String.ofList (cs.take 1)

/-! ## Parsers -/

namespace Parser

/-- The cursor at the next token, without moving. -/
def next : Parser Cursor := do
  return (← get).next

/-- A token of some length at the next token's place. -/
def leaf (kind : Kind) (length : Nat) : Parser Piece := fun c =>
  let (comments, c') := c.toToken false
  let (node, c'') := c'.leaf kind length
  some ({ comments, node }, c'')

/-- A token of some length right at the cursor. -/
def leafHere (kind : Kind) (length : Nat) : Parser Piece := fun c =>
  let (node, c') := c.leaf kind length
  some ({ node }, c')

def mark (text : String) : Parser Piece := do
  if (← next).startsWith text then leaf (.token text) text.length else failure

def mark? (text : String) : Parser (List Piece) := do
  if (← next).startsWith text then return [← leaf (.token text) text.length] else return []

def word (text : String) : Parser Piece := do
  if (← next).word = text then leaf (.token text) text.length else failure

def word? (text : String) : Parser (List Piece) := do
  if (← next).word = text then return [← leaf (.token text) text.length] else return []

def name (kind : Kind) : Parser Piece := do
  let c ← next
  if c.atName then leaf kind (nameLength c.left c.rest) else failure

/-- A word, reserved or not, as a node of the given kind. -/
def anyWord (kind : Kind) : Parser Piece := do
  let c ← next
  let n := nameLength c.left c.rest
  if n = 0 then failure else leaf kind n

/-- Steps from a state until a step gives none, at most `fuel` times. -/
def iterate {α : Type} (step : α → Parser (Option α)) : (fuel : Nat) → α → Parser α
  | 0, a => pure a
  | fuel + 1, a => do
    match ← step a with
    | some b => iterate step fuel b
    | none => pure a

/-- Steps from a state until a step gives none. Every step but the last consumes something. -/
def loop {α : Type} (step : α → Parser (Option α)) (a : α) : Parser α := fun c =>
  iterate step (c.left + 1) a c

def statementEnds (afterOperand : Bool) : Parser Bool := fun c =>
  some (c.statementEnds afterOperand, c)

/-- The end of a statement: nothing, where the layout says so, or a semicolon. -/
def semicolon (afterOperand : Bool) : Parser (List Piece) := do
  if ← statementEnds afterOperand then return [] else return [← mark ";"]

end Parser

/-! ## Numbers -/

/-- The length of digits with single underscores between them. -/
def digitsLength (isDigit : Char → Bool) : List Char → Nat
  | c :: '_' :: d :: more =>
    if isDigit c then if isDigit d then digitsLength isDigit (d :: more) + 2 else 1 else 0
  | c :: rest => if isDigit c then digitsLength isDigit rest + 1 else 0
  | [] => 0

def decimalDigitsLength : List Char → Nat := digitsLength Char.isDigit

def exponentLength : List Char → Nat
  | c :: rest =>
    if c = 'e' || c = 'E' then
      match rest with
      | s :: more =>
        if s = '+' || s = '-' then
          let n := decimalDigitsLength more
          if n = 0 then 0 else n + 2
        else
          let n := decimalDigitsLength rest
          if n = 0 then 0 else n + 1
      | [] => 0
    else 0
  | [] => 0

/-- The length of a number's whole part that a point or an exponent may follow: no zero leads it
but one. -/
def wholeLength : List Char → Nat
  | [] => 0
  | c :: rest =>
    let behind (front : Nat) (rest : List Char) : Nat :=
      match rest with
      | '_' :: more =>
        let n := decimalDigitsLength more
        if n = 0 then front else front + n + 1
      | _ => front + decimalDigitsLength rest
    if c = '0' then
      match rest with
      | d :: more => if d.isDigit && d ≠ '0' then behind 2 more else 1
      | [] => 1
    else if c.isDigit then behind 1 rest
    else 0

/-- The length of a literal with a letter for its base. -/
def basedLength : List Char → Nat
  | '0' :: b :: rest =>
    let digits :=
      if b = 'x' || b = 'X' then digitsLength isHexDigit rest
      else if b = 'b' || b = 'B' then digitsLength (fun c => c = '0' || c = '1') rest
      else if b = 'o' || b = 'O' then digitsLength (fun c => '0' ≤ c && c ≤ '7') rest
      else 0
    if digits = 0 then 0 else digits + 2
  | _ => 0

def numberLength (cs : List Char) : Nat :=
  let big (n : Nat) : Nat := if n ≠ 0 ∧ (cs.drop n).head? = some 'n' then n + 1 else n
  let whole := wholeLength cs
  let fractional : Nat :=
    if whole ≠ 0 then
      match cs.drop whole with
      | '.' :: rest =>
        let places := decimalDigitsLength rest
        whole + 1 + places + exponentLength (rest.drop places)
      | rest =>
        let e := exponentLength rest
        if e = 0 then 0 else whole + e
    else
      match cs with
      | '.' :: rest =>
        let places := decimalDigitsLength rest
        if places = 0 then 0 else 1 + places + exponentLength (rest.drop places)
      | _ => 0
  max (max (big (basedLength cs)) (big (decimalDigitsLength cs))) fractional

/-! ## Strings and regular expressions -/

def escapeLength? : List Char → Option Nat
  | '\\' :: c :: rest =>
    if c = 'x' then
      let digits := rest.take 2
      if digits.length = 2 ∧ digits.all isHexDigit then some 4 else none
    else if c = 'u' then nameEscapeLength? ('\\' :: 'u' :: rest)
    else if '0' ≤ c && c ≤ '7' then
      some (2 + ((rest.take 2).takeWhile fun d => '0' ≤ d && d ≤ '7').length)
    else if (c = '\r' || c = '?') && rest.head?.any isLineEnd then some 3
    else some 2
  | _ => none

/-- The length of the text of a template up to an escape, a substitution or the end; `none` if the
script ends in it. -/
def templateCharsLength? : List Char → Option Nat
  | [] => none
  | '`' :: _ => some 0
  | '\\' :: _ => some 0
  | '$' :: '\x7b' :: _ => some 0
  | c :: rest => if c.toNat = 0 then none else (templateCharsLength? rest).map (· + 1)

/-- The length of a class in a regular expression, from its opening bracket to behind its end. -/
def regexClassLength? : List Char → Option Nat
  | [] => none
  | ']' :: _ => some 1
  | '\\' :: c :: rest => if c = '\n' then none else (regexClassLength? rest).map (· + 2)
  | '\\' :: [] => none
  | c :: rest => if c = '\n' then none else (regexClassLength? rest).map (· + 1)

def regexPatternLength : (fuel : Nat) → List Char → Nat
  | 0, _ => 0
  | fuel + 1, cs =>
    match cs with
    | [] => 0
    | '[' :: rest =>
      match regexClassLength? rest with
      | some n => regexPatternLength fuel (rest.drop n) + n + 1
      | none => 0
    | '\\' :: c :: rest => if c = '\n' then 0 else regexPatternLength fuel rest + 2
    | '\\' :: [] => 0
    | c :: rest => if c = '/' || c = '\n' then 0 else regexPatternLength fuel rest + 1

namespace Parser

def regex : Parser Piece := do
  let opening ← mark "/"
  let c ← get
  let n := regexPatternLength c.left c.rest
  if n = 0 then failure
  let pattern ← leafHere .regexPattern n
  let c ← get
  if !c.startsWith "/" then failure
  let closing ← leafHere (.token "/") 1
  let c ← get
  let flags := (c.rest.takeWhile fun ch => 'a' ≤ ch && ch ≤ 'z').length
  let rest ← if flags = 0 then pure [] else do pure [← leafHere .regexFlags flags]
  return Piece.make .regex ([opening, pattern, closing] ++ rest)

def number : Parser Piece := do
  let n := numberLength (← next).rest
  if n = 0 then failure else leaf .number n

/-- The parts of a string from the cursor on, in reverse, its closing quote among them. A raw line
end is a blank before the closing quote; behind a comment there the string goes on. -/
def stringParts (quote : Char) : (fuel : Nat) → List Piece → Parser (List Piece)
  | 0, _ => failure
  | fuel + 1, parts => do
    let c ← get
    match c.rest with
    | [] => failure
    | ch :: _ =>
      if ch = quote then return (← leafHere (.token (String.singleton quote)) 1) :: parts
      else if ch = '\\' then
        match escapeLength? c.rest with
        | some n => do
          let escape ← leafHere .escapeSequence n
          stringParts quote fuel (escape :: parts)
        | none => failure
      else if ch = '\n' || ch = '\r' then do
        let c' := c.advance (c.rest.takeWhile isBlank).length
        set c'
        if c'.rest.head? = some quote then
          return (← leafHere (.token (String.singleton quote)) 1) :: parts
        match commentLength? c'.rest with
        | some n => do
          let comment ← leafHere .comment n
          stringParts quote fuel (comment :: parts)
        | none => failure
      else do
        let n := (c.rest.takeWhile fun ch =>
          ch ≠ quote && ch ≠ '\\' && ch ≠ '\n' && ch ≠ '\r').length
        let fragment ← leafHere .stringFragment n
        stringParts quote fuel (fragment :: parts)

def string : Parser Piece := do
  let c ← next
  match c.rest with
  | q :: _ =>
    if q = '"' || q = '\'' then do
      let opening ← mark (String.singleton q)
      let parts ← stringParts q (c.left + 1) []
      return Piece.make .string (opening :: parts.reverse)
    else failure
  | [] => failure

end Parser

end TaskContract.Script
