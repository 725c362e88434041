import TaskContract.Text.Lines

/-!
# Source text

The characters of a script, addressed by byte offsets of their UTF-8 form as syntax trees do. Lines
are ended by the line feed alone, and a carriage return directly before it is not part of the line.
-/

namespace TaskContract.Script

def byteSize (cs : List Char) : Nat :=
  cs.foldl (fun n c => n + c.utf8Size) 0

/-- What is left after the first `n` bytes. A character that is cut goes entirely. -/
def dropBytes : Nat → List Char → List Char
  | 0, cs => cs
  | _, [] => []
  | n, c :: cs => dropBytes (n - c.utf8Size) cs

def takeBytes : Nat → List Char → List Char
  | 0, _ => []
  | _, [] => []
  | n, c :: cs => c :: takeBytes (n - c.utf8Size) cs

structure Source where
  chars : List Char
  name : Text := Text.ofString "<task>"

/-- A place in a script: a line from 1 and a column from 0, counted in characters. -/
structure Location where
  line : Nat
  column : Nat
  deriving DecidableEq, Repr

namespace Source

def slice (s : Source) (start stop : Nat) : List Char :=
  takeBytes (stop - start) (dropBytes start s.chars)

def text (s : Source) (start stop : Nat) : Text :=
  Text.ofChars (s.slice start stop)

def location (s : Source) (offset : Nat) : Location :=
  let before := takeBytes offset s.chars
  { line := before.countP (· = '\n') + 1
    column := (before.reverse.takeWhile (· ≠ '\n')).length }

def splitLines : List Char → List (List Char)
  | [] => [[]]
  | c :: cs =>
    if c = '\n' then [] :: splitLines cs
    else
      match splitLines cs with
      | [] => [[c]]
      | line :: rest => (c :: line) :: rest

def dropReturn (line : List Char) : List Char :=
  if line.getLast? = some '\r' then line.dropLast else line

/-- The lines, without their ends. What follows the last line feed is a line if it is not empty. -/
def lines (s : Source) : List (List Char) :=
  let all := (splitLines s.chars).map dropReturn
  if all.getLast? = some [] then all.dropLast else all

def lineCount (s : Source) : Nat :=
  s.lines.length

/-- The text of a line, counted from 1; empty outside of the script. -/
def lineText (s : Source) (line : Int) : List Char :=
  if 1 ≤ line then s.lines.getD (line - 1).toNat [] else []

/-- The items from index `start` to below `stop`, where a negative index counts from the end. -/
def between {α : Type} (xs : List α) (start stop : Int) : List α :=
  let place (i : Int) : Nat := if i < 0 then (xs.length + i).toNat else i.toNat
  (xs.take (place stop)).drop (place start)

def joinLines : List (List Char) → List Char
  | [] => []
  | [line] => line
  | line :: rest => line ++ '\n' :: joinLines rest

def window (s : Source) (line before after : Int) : List Char :=
  joinLines (between s.lines (max 0 (line - 1 - before)) (line + after))

/-- The lines shown around a reference: two before it and two after it. -/
def context (s : Source) (line : Nat) : List Char :=
  s.window line 2 2

end Source

end TaskContract.Script
