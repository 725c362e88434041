import TaskContract.Json.Printer
import TaskContract.Json.Equality
import TaskContract.Text.Printable

/-!
# Violations

What a value does against a schema, with the places in both; and the outcome of a check, which ends
early when the schema itself cannot be followed.
-/

namespace TaskContract.Schema

/-- A step of a path: the name of a member or the index of an item. -/
inductive Step where
  | name (t : Text)
  | index (i : Nat)
  deriving DecidableEq

def Step.text : Step → Text
  | .name t => t
  | .index i => Text.ofNat i

def pathText (path : List Step) : Text :=
  path.flatMap fun s => CodePoint.ofChar '/' :: s.text

/-- One thing that a value does against a schema. The schema `false` has no keyword. -/
structure Violation where
  instancePath : List Step
  schemaPath : List Step
  keyword : Option Text
  message : Text
  deriving DecidableEq

namespace Violation

def toJson (v : Violation) : Json :=
  .object [("instancePath", .str (pathText v.instancePath)),
    ("schemaPath", .str (CodePoint.ofChar '#' :: pathText v.schemaPath)),
    ("keyword", .ofText? v.keyword), ("message", .str v.message)]

/-- The violation as seen from further out. -/
def within (path schemaPath : List Step) (v : Violation) : Violation :=
  { v with instancePath := path ++ v.instancePath, schemaPath := schemaPath ++ v.schemaPath }

def pathLe : List Text → List Text → Bool
  | [], _ => true
  | _ :: _, [] => false
  | a :: s, b :: t => if a = b then pathLe s t else a.le b

/-- Violations in the order of their places in the value, where indices count as texts. -/
def sort (vs : List Violation) : List Violation :=
  vs.mergeSort fun a b => pathLe (a.instancePath.map Step.text) (b.instancePath.map Step.text)

end Violation

inductive Obstacle where
  /-- A reference names a document that is not known. -/
  | unknownDocument (reference : Text)
  /-- The pointer of a reference leads nowhere in the document shown. -/
  | nowhere (pointer shown : Text)
  /-- The document shown has no such anchor. -/
  | noAnchor (anchor shown : Text)
  /-- A reference leads to something that is neither an object nor a boolean. -/
  | notASchema
  /-- A keyword has a value that cannot be used. -/
  | unusable
  /-- A step of a reference into an array is not a number. -/
  | notAnIndex (segment : Text)
  /-- A number is beyond the floating-point range. -/
  | tooLarge
  /-- A NaN has no integer part. -/
  | notANumber
  /-- Patterns that are well formed one by one are not when joined. -/
  | badPattern
  /-- References lead in a circle. -/
  | tooDeep
  deriving DecidableEq

def Obstacle.message : Obstacle → Text
  | unknownDocument r => Text.ofString "Unresolvable: " ++ r
  | nowhere pointer shown =>
    Text.ofString "PointerToNowhere: " ++ pointer.quoted
      ++ Text.ofString " does not exist within " ++ shown
      ++ (if pointer = Text.ofString "/" then Text.ofString
            (". The pointer '/' is a valid JSON Pointer but it points to an empty string "
              ++ "property ''. If you intended to point to the entire resource, you should use "
              ++ "'#'.")
          else [])
  | noAnchor anchor shown =>
    if anchor.contains (CodePoint.ofChar '/') then
      Text.ofString "InvalidAnchor: '#" ++ anchor
        ++ Text.ofString ("' is not a valid anchor, neither as a plain name anchor nor as a JSON "
          ++ "Pointer. You may have intended to use '#/")
        ++ anchor
        ++ Text.ofString ("', as the slash is required *before each segment* of a JSON pointer.")
    else
      Text.ofString "NoSuchAnchor: " ++ anchor.quoted
        ++ Text.ofString " does not exist within " ++ shown
  | notASchema => Text.ofString "the schema is neither an object nor a boolean"
  | unusable => Text.ofString "the value of a keyword cannot be used"
  | notAnIndex segment =>
    Text.ofString "invalid literal for int() with base 10: " ++ segment.quoted
  | tooLarge => Text.ofString "int too large to convert to float"
  | notANumber => Text.ofString "cannot convert float NaN to integer"
  | badPattern => Text.ofString "the joined patterns are not well formed"
  | tooDeep => Text.ofString "maximum recursion depth exceeded"

/-- The violations found before the check ended, and what ended it early. -/
structure Outcome where
  violations : List Violation := []
  obstacle : Option Obstacle := none

namespace Outcome

def ofMessage (keyword : Text) (message : Text) : Outcome :=
  { violations := [{ instancePath := [], schemaPath := [], keyword := some keyword, message }] }

/-- What the schema `false` makes of a value. -/
def refusal (value : Json) : Outcome :=
  let message := Text.ofString "False schema does not allow " ++ value.display
  { violations := [{ instancePath := [], schemaPath := [], keyword := none, message }] }

def stop (o : Obstacle) : Outcome := { obstacle := some o }

def append (a b : Outcome) : Outcome :=
  match a.obstacle with
  | some _ => a
  | none => { violations := a.violations ++ b.violations, obstacle := b.obstacle }

instance : Append Outcome := ⟨append⟩

/-- The outcomes of the checks of several things in order, up to the first obstacle. -/
def each {α : Type} (xs : List α) (check : α → Outcome) : Outcome :=
  match xs with
  | [] => {}
  | x :: rest =>
    let first := check x
    match first.obstacle with
    | some _ => first
    | none => first ++ each rest check

def within (path schemaPath : List Step) (o : Outcome) : Outcome :=
  { o with violations := o.violations.map (Violation.within path schemaPath) }

/-- Is there no violation? An obstacle counts only if no violation comes first. -/
def isValid (o : Outcome) : Except Obstacle Bool :=
  if !o.violations.isEmpty then .ok false
  else
    match o.obstacle with
    | some e => .error e
    | none => .ok true

/-- Is there a violation, once everything has been checked? -/
def isClean (o : Outcome) : Except Obstacle Bool :=
  match o.obstacle with
  | some e => .error e
  | none => .ok o.violations.isEmpty

/-- Goes on with a result, or stops at its obstacle. -/
def bind {α : Type} (r : Except Obstacle α) (f : α → Outcome) : Outcome :=
  match r with
  | .ok a => f a
  | .error e => stop e

end Outcome

end TaskContract.Schema
