import TaskContract.Yaml.Lexeme

/-!
# The tokens of a stream

One token after another is read until the text ends. Indentation opens and closes block
collections; inside flow collections it does not count.
-/

namespace TaskContract.Yaml

def isStreamChar (c : CodePoint) : Bool :=
  c.val = 9 || c.val = 10 || c.val = 13 || (0x20 ≤ c.val && c.val ≤ 0x7E) || c.val = 0x85
    || (0xA0 ≤ c.val && c.val ≤ 0xD7FF) || (0xE000 ≤ c.val && c.val ≤ 0xFFFD)
    || 0x10000 ≤ c.val

namespace Reader

def skipToToken : (fuel : Nat) → Reader → Reader
  | 0, r => r
  | fuel + 1, r =>
    let r := r.skipBlanks
    let r := if r.at? '#' then (r.takeWhile fun c => !isBreak c).2 else r
    if r.peek.any isBreak then
      let r := r.lineBreak.2
      skipToToken fuel (if r.flow = 0 then { r with keyAllowed := true } else r)
    else r

/-- Closes every block collection, and with them the possible keys. -/
def closeBlocks (r : Reader) : Option Reader := do
  let r ← (r.unwind fun _ => false).dropPossible
  return { r with keyAllowed := false }

def openFlow (t : Token) (r : Reader) : Option Reader := do
  let r ← r.savePossible
  return ({ r with flow := r.flow + 1, keyAllowed := true }.emit t).forward

def closeFlow (t : Token) (r : Reader) : Option Reader := do
  let r ← r.dropPossible
  if r.flow = 0 then none
  else return ({ r with flow := r.flow - 1, keyAllowed := false }.emit t).forward

def flowEntry (r : Reader) : Option Reader := do
  let r ← { r with keyAllowed := true }.dropPossible
  return (r.emit .flowEntry).forward

/-- A sign that opens a block collection where none is open at its column. -/
def blockSign (start : Token) (r : Reader) : Option Reader :=
  if 0 < r.flow then some r
  else if !r.keyAllowed then none
  else
    match r.openAt r.column with
    | (true, r) => some (r.emit start)
    | (false, r) => some r

def blockEntry (r : Reader) : Option Reader := do
  let r ← r.blockSign .blockSequenceStart
  let r ← { r with keyAllowed := true }.dropPossible
  return (r.emit .blockEntry).forward

def key (r : Reader) : Option Reader := do
  let r ← r.blockSign .blockMappingStart
  let r ← { r with keyAllowed := r.flow = 0 }.dropPossible
  return (r.emit .key).forward

/-- The colon of a value. If a key may have begun before it, the place held open there is filled. -/
def value (r : Reader) : Option Reader := do
  let r ← match r.possible.lookup r.flow with
    | some k =>
      let (opened, r) := if r.flow = 0 then r.openAt k.column else (false, r)
      let tokens := if opened then [.blockMappingStart, .key] else [.key]
      some { r with filled := (k.place, tokens) :: r.filled
                    possible := r.possible.filter fun e => e.1 ≠ r.flow
                    keyAllowed := false }
    | none => do
      let r ← r.blockSign .blockMappingStart
      { r with keyAllowed := r.flow = 0 }.dropPossible
  return (r.emit .value).forward

def keyLexeme (read : Reader → Option (Token × Reader)) (r : Reader) : Option Reader := do
  let r ← r.savePossible
  let (t, r) ← read { r with keyAllowed := false }
  return r.emit t

def blockScalarToken (folded : Bool) (r : Reader) : Option Reader := do
  let r ← { r with keyAllowed := true }.dropPossible
  let (text, r) ← r.blockScalar folded
  return r.emit (.scalar text false)

/-- The next token, or nothing more at the end of the text. The outer option is failure. -/
def next (r : Reader) : Option (Option Reader × Reader) := do
  let r := r.skipToToken (r.rest.length + 1)
  let r ← r.dropStale
  let column := r.column
  let r := r.unwind fun i => i ≤ column
  let more (x : Option Reader) : Option (Option Reader × Reader) := x.map fun r => (some r, r)
  match r.peek with
  | none => do
    let r ← r.closeBlocks
    return (none, r)
  | some c =>
    let named (f : Text → Token) (r : Reader) : Option (Token × Reader) :=
      r.anchorName.map fun (n, r) => (f n, r)
    let scalar (double : Bool) (r : Reader) : Option (Token × Reader) :=
      (r.quotedScalar double).map fun (t, r) => (.scalar t false, r)
    if c = '%' && column = 0 then more (r.closeBlocks.bind directive)
    else if column = 0 && r.atBoundary '-' then
      more (r.closeBlocks.map fun r => (r.emit .documentStart).advance 3)
    else if column = 0 && r.atBoundary '.' then
      more (r.closeBlocks.map fun r => (r.emit .documentEnd).advance 3)
    else if c = '[' then more (r.openFlow .flowSequenceStart)
    else if c = '{' then more (r.openFlow .flowMappingStart)
    else if c = ']' then more (r.closeFlow .flowSequenceEnd)
    else if c = '}' then more (r.closeFlow .flowMappingEnd)
    else if c = ',' then more r.flowEntry
    else if c = '-' && endsWord (r.peek 1) then more r.blockEntry
    else if c = '?' && (0 < r.flow || endsWord (r.peek 1)) then more r.key
    else if c = ':' && (0 < r.flow || endsWord (r.peek 1)) then more r.value
    else if c = '*' then more (r.keyLexeme (named .alias))
    else if c = '&' then more (r.keyLexeme (named .anchor))
    else if c = '!' then more (r.keyLexeme tagToken)
    else if c = '|' && r.flow = 0 then more (r.blockScalarToken false)
    else if c = '>' && r.flow = 0 then more (r.blockScalarToken true)
    else if c = '\'' then more (r.keyLexeme (scalar false))
    else if c = '"' then more (r.keyLexeme (scalar true))
    else if r.atPlain then
      more (do
        let r ← r.savePossible
        let (t, r) := { r with keyAllowed := false }.plainScalar
        return r.emit (.scalar t true))
    else none

def all : (fuel : Nat) → Reader → Option Reader
  | 0, _ => none
  | fuel + 1, r =>
    match r.next with
    | none => none
    | some (none, r) => some r
    | some (some r, _) => all fuel r

end Reader

/-- The tokens of a text, if it is well formed as far as tokens go. -/
def tokens? (t : Text) : Option (List Token) :=
  if !t.all isStreamChar then none
  else
    let r : Reader := { rest := t }
    let r := if t.head? = some (CodePoint.ofNat 0xFEFF) then r.forward else r
    (r.all (t.length + 2)).map Reader.tokens

end TaskContract.Yaml
