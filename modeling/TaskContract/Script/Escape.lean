import TaskContract.Text.CodePoint

/-!
# String escapes of the script language

The value of the text between the quotes of a string or template: each escape is replaced by what
it stands for, and all else is kept. An escape of four digits stands for one code point even where
two of them spell the halves of one character.
-/

namespace TaskContract.Script

open TaskContract

inductive EscapeError where
  /-- A `\u{...}` escape beyond U+10FFFF. -/
  | beyondUnicode
  /-- A `\u{...}` escape that does not even fit a signed word of 32 bits. -/
  | beyondWord
  deriving DecidableEq

def EscapeError.message : EscapeError → Text
  | .beyondUnicode => Text.ofString "chr() arg not in range(0x110000)"
  | .beyondWord => Text.ofString "Python int too large to convert to C int"

def codePoint (n : Nat) : Except EscapeError CodePoint :=
  if h : n < 0x110000 then .ok ⟨n, h⟩
  else if n < 0x80000000 then .error .beyondUnicode
  else .error .beyondWord

def hexValue (digits : Text) : Nat :=
  digits.foldl (fun n c => 16 * n + c.hexValue?.getD 0) 0

def simpleValue (c : CodePoint) : Text :=
  if c = 'n' then [CodePoint.ofChar '\n']
  else if c = 't' then [CodePoint.ofChar '\t']
  else if c = 'r' then [CodePoint.ofChar '\r']
  else if c = 'b' then [CodePoint.ofChar '\x08']
  else if c = 'f' then [CodePoint.ofChar '\x0c']
  else if c = 'v' then [CodePoint.ofChar '\x0b']
  else if c = '0' then [CodePoint.ofChar '\x00']
  else if c = '\n' || c = '\r' then []
  else [c]

/-- The digits of a `u{...}` escape that the text begins with, and the number of code points it
takes. -/
def bracedDigits? : Text → Option (Text × Nat)
  | u :: b :: rest =>
    if u = 'u' && b = '{' then
      let digits := rest.takeWhile CodePoint.isHexDigit
      match rest.drop digits.length with
      | c :: _ => if c = '}' && !digits.isEmpty then some (digits, digits.length + 3) else none
      | [] => none
    else none
  | _ => none

/-- The digits of an escape of fixed length that the text begins with: four after `u`, two after
`x`. -/
def fixedDigits? (t : Text) : Option (Text × Nat) :=
  let digitsAfter (rest : Text) (n : Nat) : Option (Text × Nat) :=
    let digits := rest.take n
    if digits.length = n && digits.all CodePoint.isHexDigit then some (digits, n + 1) else none
  match t with
  | c :: rest =>
    if c = 'u' then digitsAfter rest 4 else if c = 'x' then digitsAfter rest 2 else none
  | [] => none

/-- What the text after a backslash stands for, and how many code points of it the escape takes. -/
def escapeValue (t : Text) : Except EscapeError (Text × Nat) :=
  match bracedDigits? t with
  | some (digits, size) => do
    let c ← codePoint (hexValue digits)
    pure ([c], size)
  | none =>
    match fixedDigits? t with
    | some (digits, size) => do
      let c ← codePoint (hexValue digits)
      pure ([c], size)
    | none =>
      match t with
      | [] => .ok ([CodePoint.ofChar '\\'], 0)
      | c :: rest =>
        if c = '\r' && rest.head? = some (CodePoint.ofChar '\n') then .ok ([], 2)
        else .ok (simpleValue c, 1)

/-- The value of a text with escapes, of which the first `skip` code points belong to an escape
before it. A backslash at the very end stands for itself. -/
def unescapeFrom : (skip : Nat) → Text → Except EscapeError Text
  | _, [] => .ok []
  | skip + 1, _ :: rest => unescapeFrom skip rest
  | 0, c :: rest =>
    if c = '\\' then do
      let (value, size) ← escapeValue rest
      let more ← unescapeFrom size rest
      pure (value ++ more)
    else do
      let more ← unescapeFrom 0 rest
      pure (c :: more)

def unescape (t : Text) : Except EscapeError Text :=
  unescapeFrom 0 t

end TaskContract.Script
