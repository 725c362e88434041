import TaskContract.Json.Reader
import TaskContract.Text.CodePoint
import TaskContract.Text.Printable

/-!
# The JSON value in a reply

A model that is asked for JSON may wrap it in code fences or in prose. `parseContent` reads the
whole text, else the text without its fences, else the outermost object in it, else the outermost
array.
-/

namespace TaskContract.Chat

/-- The number of code points of a code fence at the start of the text, if there is one: an opening
fence with its language and the blanks after it, or a closing one with the line feed before it. -/
def fenceLength? (t : Text) : Option Nat :=
  match t.dropFront? (Text.ofString "```") with
  | some rest =>
    let rest := (rest.dropFront? (Text.ofString "json")).getD rest
    some (t.length - (rest.dropWhile CodePoint.isBlank).length)
  | none => if t.startsWith (Text.ofString "\n```") then some 4 else none

/-- The text without its code fences. `skip` code points at the front belong to one. -/
def withoutFences (skip : Nat) : Text → Text
  | [] => []
  | c :: rest =>
    match skip with
    | n + 1 => withoutFences n rest
    | 0 =>
      match fenceLength? (c :: rest) with
      | some n => withoutFences (n - 1) rest
      | none => c :: withoutFences 0 rest

/-- The text from the first occurrence of one bracket to the last occurrence of another. -/
def outermost? (opening closing : CodePoint) (t : Text) : Option Text := do
  let start ← Text.find? [opening] t
  let stop ← Text.lastIndexOf? closing t
  if start < stop then some ((t.take (stop + 1)).drop start) else none

/-- The texts in which the value is looked for, in order. -/
def candidates (t : Text) : List Text :=
  let cleaned := Text.trim (withoutFences 0 t)
  [t, cleaned] ++ (outermost? '{' '}' cleaned).toList ++ (outermost? '[' ']' cleaned).toList

inductive ContentError where
  /-- None of the candidates is well-formed JSON. -/
  | unreadable (text : Text)
  /-- A candidate holds an integer of too many digits. -/
  | number (e : Json.ReadError)
  deriving DecidableEq

def ContentError.message : ContentError → Text
  | .unreadable t => Text.ofString "Failed to parse JSON response: " ++ Text.quoted (t.take 200)
  | .number e => e.message

def firstReadable? : List Text → Except Json.ReadError (Option Json)
  | [] => .ok none
  | t :: rest =>
    match Json.read t with
    | .ok v => .ok (some v)
    | .error (.tooManyDigits n) => .error (.tooManyDigits n)
    | .error (.malformed _ _ _) => firstReadable? rest

def parseContent (t : Text) : Except ContentError Json :=
  match firstReadable? (candidates t) with
  | .ok (some v) => .ok v
  | .ok none => .error (.unreadable t)
  | .error e => .error (.number e)

end TaskContract.Chat
