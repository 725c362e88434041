import TaskContract.Script.EarlyError
import TaskContract.Script.Grammar.Statement
import TaskContract.Text.CodePoint
import TaskContract.Text.Printable

/-!
# Where a script is at fault

A script that the grammar refuses is reported at a span: a brace that is missing at the end, a
bracket that closes nothing, or the statement that cannot be read. The report shows the line and
the column from 1 and what stands there.
-/

namespace TaskContract.Script

structure Fault where
  diagnostic : Text
  name : Text
  line : Nat
  column : Nat
  lineText : Text
  deriving DecidableEq

def Fault.message (f : Fault) : Text :=
  Text.ofString "Failed to parse task source code at line " ++ Text.ofNat f.line
    ++ Text.ofString ", column " ++ Text.ofNat f.column ++ Text.ofString ": " ++ f.diagnostic

def Source.fault (s : Source) (offset : Nat) (diagnostic : Text) : Fault :=
  let place := s.location offset
  { diagnostic
    name := s.name
    line := place.line
    column := place.column + 1
    lineText := Text.ofChars (s.lineText place.line) }

def snippetLength : Nat := 30

/-- What a report says of an unexpected span: its first line, without blanks around it. -/
def describeUnexpected (text : Text) : Text :=
  match Text.firstLine? text.trim with
  | none => Text.ofString "unexpected end of input"
  | some line =>
    let shown : Text :=
      if snippetLength < line.length then line.take snippetLength ++ Text.ofString "..." else line
    Text.ofString "unexpected token " ++ shown.quoted

def describeMissing (token : Text) : Text :=
  Text.ofString "missing " ++ token.quoted

def Source.unexpected (s : Source) (start stop : Nat) : Fault :=
  s.fault start (describeUnexpected (s.text start stop))

def Source.missing (s : Source) (offset : Nat) (token : Text) : Fault :=
  s.fault offset (describeMissing token)

def Source.early (s : Source) (e : EarlyError) : Fault :=
  s.fault e.node.start e.kind.message

/-- The brackets that are open at the end of a text, the innermost first, comments and quoted text
passed over. -/
def openBrackets : (fuel : Nat) → List Char → List Char → List Char
  | 0, opened, _ => opened
  | fuel + 1, opened, cs =>
    match cs with
    | [] => opened
    | c :: rest =>
      match commentLength? cs with
      | some n => openBrackets fuel opened (cs.drop n)
      | none =>
        if c = '"' || c = '\'' || c = '`' then
          openBrackets fuel opened (behindQuote c rest)
        else if "([\x7b".toList.contains c then openBrackets fuel (c :: opened) rest
        else if ")]\x7d".toList.contains c then openBrackets fuel (opened.drop 1) rest
        else openBrackets fuel opened rest
where
  behindQuote (q : Char) : List Char → List Char
    | [] => []
    | '\\' :: _ :: rest => behindQuote q rest
    | c :: rest => if c = q then rest else behindQuote q rest

def lastTokenEnd : (fuel : Nat) → Nat → Cursor → Nat
  | 0, last, _ => last
  | fuel + 1, last, c =>
    let c := c.next
    if c.rest.isEmpty then last
    else
      let c' := c.advance 1
      lastTokenEnd fuel c'.offset c'

/-- Statements as long as they can be read, and the cursor where they stop. -/
def readableStatements (g : Grammar) : (fuel : Nat) → Cursor → Cursor
  | 0, c => c
  | fuel + 1, c =>
    match (g.statement true).run c with
    | some (_, c') => if c'.left < c.left then readableStatements g fuel c' else c
    | none => c.next

def Source.syntaxFault (s : Source) : Fault :=
  let g := grammar (s.chars.length + 2)
  let stop := byteSize s.chars
  let c := readableStatements g (s.chars.length + 1) (.ofChars s.chars)
  match c.rest with
  | [] => s.unexpected 0 stop
  | ch :: _ =>
    if ")]\x7d".toList.contains ch then s.unexpected c.offset (c.offset + 1)
    else
      let opened := openBrackets (c.left + 1) [] c.rest
      if !opened.isEmpty && opened.all fun b => b = '\x7b' then
        s.missing (lastTokenEnd (c.left + 1) c.offset c) (Text.ofString "\x7d")
      else s.unexpected c.offset stop

inductive ParseError where
  /-- The grammar refuses it. -/
  | refused (fault : Fault)
  /-- It holds something that a module must not hold. -/
  | early (fault : Fault)

def ParseError.fault : ParseError → Fault
  | .refused f => f
  | .early f => f

def parse (s : Source) : Except ParseError Node :=
  match parseChars s.chars with
  | none => .error (.refused s.syntaxFault)
  | some root =>
    match earlyError? s root with
    | some e => .error (.early (s.early e))
    | none => .ok root

end TaskContract.Script
