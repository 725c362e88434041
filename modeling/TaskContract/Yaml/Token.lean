import TaskContract.Text.CodePoint

/-!
# Tokens of YAML

The tokens of a stream and the state in which they are read. Whether a token begins a key shows only
at the colon after it, so a place before each token that could be a key is held open, and filled
when the colon comes.
-/

namespace TaskContract.Yaml

/-- A token. A scalar is plain if it stands without quotes. -/
inductive Token where
  | documentStart
  | documentEnd
  | versionDirective (major minor : Nat)
  | tagDirective (handle front : Text)
  | otherDirective
  | blockSequenceStart
  | blockMappingStart
  | blockEnd
  | flowSequenceStart
  | flowSequenceEnd
  | flowMappingStart
  | flowMappingEnd
  | blockEntry
  | flowEntry
  | key
  | value
  | alias (name : Text)
  | anchor (name : Text)
  | tag (handle : Option Text) (suffix : Text)
  | scalar (text : Text) (plain : Bool)
  deriving DecidableEq

/-- What was read: a token, or a place held open under a number. -/
inductive Slot where
  | token (t : Token)
  | place (number : Nat)

/-- A place where a key may begin. It is required if nothing else can begin there. -/
structure PossibleKey where
  place : Nat
  required : Bool
  index : Nat
  line : Nat
  column : Nat

/-- What is left of the text, where it stands, and what was read of it so far, in reverse. -/
structure Reader where
  rest : Text
  index : Nat := 0
  line : Nat := 0
  column : Nat := 0
  /-- The number of flow collections that are open. -/
  flow : Nat := 0
  /-- The columns of the open block collections, innermost first. -/
  indents : List Nat := []
  slots : List Slot := []
  places : Nat := 0
  /-- The tokens that fill places. -/
  filled : List (Nat × List Token) := []
  keyAllowed : Bool := true
  /-- The possible keys by their depth in flow collections. -/
  possible : List (Nat × PossibleKey) := []

def isBreak (c : CodePoint) : Bool :=
  c = '\n' || c = '\r' || c.val = 0x85 || c.val = 0x2028 || c.val = 0x2029

def breaksOff (c : Option CodePoint) : Bool :=
  c.all isBreak

/-- Does the code point end a word: is it a blank, a line break or none? -/
def endsWord (c : Option CodePoint) : Bool :=
  c.all fun c => isBreak c || c = ' ' || c = '\t'

def isOneOf (set : String) (c : CodePoint) : Bool :=
  (Text.ofString set).contains c

def isWordChar (c : CodePoint) : Bool :=
  c.isAsciiLetter || c.isDigit || c = '-' || c = '_'

namespace Reader

def peek (r : Reader) (n : Nat := 0) : Option CodePoint :=
  r.rest[n]?

def at? (r : Reader) (c : Char) : Bool :=
  r.peek = some (CodePoint.ofChar c)

def forward (r : Reader) : Reader :=
  match r.rest with
  | [] => r
  | c :: rest =>
    let r := { r with rest, index := r.index + 1 }
    if isBreak c && !(c = '\r' && rest.head? = some (CodePoint.ofChar '\n')) then
      { r with line := r.line + 1, column := 0 }
    else if c.val = 0xFEFF then r
    else { r with column := r.column + 1 }

def advance (r : Reader) : Nat → Reader
  | 0 => r
  | n + 1 => r.forward.advance n

/-- The code points from here on that fulfil a condition, and the state after them. -/
def takeWhile (r : Reader) (p : CodePoint → Bool) : Text × Reader :=
  let t := r.rest.takeWhile p
  (t, r.advance t.length)

def skipBlanks (r : Reader) : Reader :=
  (r.takeWhile fun c => c = ' ').2

/-- Moves past a line break, if there is one, and tells what it stands for. -/
def lineBreak (r : Reader) : Text × Reader :=
  match r.rest with
  | [] => ([], r)
  | c :: rest =>
    if c = '\r' && rest.head? = some (CodePoint.ofChar '\n') then
      ([CodePoint.ofChar '\n'], r.advance 2)
    else if c.val = 0x2028 || c.val = 0x2029 then ([c], r.forward)
    else if isBreak c then ([CodePoint.ofChar '\n'], r.forward)
    else ([], r)

/-- Does a line of three equal characters that bounds documents begin here? -/
def atBoundary (r : Reader) (c : Char) : Bool :=
  r.rest.take 3 = List.replicate 3 (CodePoint.ofChar c) && endsWord (r.peek 3)

def atAnyBoundary (r : Reader) : Bool :=
  r.atBoundary '-' || r.atBoundary '.'

def emit (r : Reader) (t : Token) : Reader :=
  { r with slots := .token t :: r.slots }

/-- The column of the innermost block collection, if one is open. -/
def indent? (r : Reader) : Option Nat :=
  r.indents.head?

def isIndented (r : Reader) (column : Nat) : Bool :=
  r.indent?.all fun i => i < column

def unwind (r : Reader) (keeps : Nat → Bool) : Reader :=
  if 0 < r.flow then r
  else
    let closed := r.indents.takeWhile fun i => !keeps i
    { r with indents := r.indents.drop closed.length
             slots := closed.map (fun _ => .token .blockEnd) ++ r.slots }

/-- Opens a block collection at the column unless it is open, telling whether it did. -/
def openAt (r : Reader) (column : Nat) : Bool × Reader :=
  if r.isIndented column then (true, { r with indents := column :: r.indents }) else (false, r)

/-- Gives up the possible key at this depth. A required one cannot be given up. -/
def dropPossible (r : Reader) : Option Reader :=
  match r.possible.lookup r.flow with
  | some k =>
    if k.required then none
    else some { r with possible := r.possible.filter fun e => e.1 ≠ r.flow }
  | none => some r

/-- Gives up the possible keys that are on another line or too far back. -/
def dropStale (r : Reader) : Option Reader :=
  let isStale (k : PossibleKey) : Bool := k.line ≠ r.line || 1024 < r.index - k.index
  if r.possible.any fun e => isStale e.2 && e.2.required then none
  else some { r with possible := r.possible.filter fun e => !isStale e.2 }

def savePossible (r : Reader) : Option Reader :=
  if !r.keyAllowed then some r
  else do
    let required := r.flow = 0 && r.indent? = some r.column
    let r ← r.dropPossible
    let k : PossibleKey := ⟨r.places, required, r.index, r.line, r.column⟩
    return { r with places := r.places + 1
                    slots := .place r.places :: r.slots
                    possible := (r.flow, k) :: r.possible }

def tokens (r : Reader) : List Token :=
  r.slots.reverse.flatMap fun
    | .token t => [t]
    | .place n => (r.filled.lookup n).getD []

end Reader

end TaskContract.Yaml
