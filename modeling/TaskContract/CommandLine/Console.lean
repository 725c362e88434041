import TaskContract.Text.Encoding

/-!
# The console

Terminal control sequences are left out of everything that is printed. The output cannot show
surrogates; among the errors they are shown by their numbers.
-/

namespace TaskContract

inductive Stream where
  | output
  | errors
  deriving DecidableEq

structure Printed where
  stream : Stream
  text : Text

namespace Console

/-- Does the code point stand between the opening of a control sequence and its final letter? -/
def isSequenceParameter (c : CodePoint) : Bool :=
  c.isDigit || c = ';' || c = '?'

/-- The length of the control sequence that a text begins with, or zero. -/
def sequenceLength : Text → Nat
  | escape :: bracket :: rest =>
    if escape.val = 0x1B && bracket = '[' then
      let parameters := rest.takeWhile isSequenceParameter
      match rest.drop parameters.length with
      | final :: _ => if final.isAsciiLetter then parameters.length + 3 else 0
      | [] => 0
    else 0
  | _ => 0

/-- The text without control sequences; the first code points are left out too. -/
def plainAfter : (skip : Nat) → Text → Text
  | _, [] => []
  | skip + 1, _ :: rest => plainAfter skip rest
  | 0, c :: rest =>
    match sequenceLength (c :: rest) with
    | 0 => c :: plainAfter 0 rest
    | n + 1 => plainAfter n rest

def plain (t : Text) : Text :=
  plainAfter 0 t

def line (t : Text) : Text :=
  plain (t ++ Text.ofString "\n")

/-- Prints a line of the output, unless it cannot be shown. -/
def output (t : Text) : Except EncodingFault Printed :=
  match Encoding.utf8.fault? (line t) with
  | some f => .error f
  | none => .ok ⟨.output, line t⟩

def error (t : Text) : Printed :=
  ⟨.errors, (line t).flatMap fun c =>
    if c.isSurrogate then Text.ofString "\\u" ++ Text.hex 4 c.val else [c]⟩

/-- Prints lines of the output up to the first that cannot be shown, and says why it cannot. -/
def outputs : List Text → List Printed × Option EncodingFault
  | [] => ([], none)
  | t :: rest =>
    match output t with
    | .error f => ([], some f)
    | .ok printed =>
      let (more, fault) := outputs rest
      (printed :: more, fault)

end Console

end TaskContract
