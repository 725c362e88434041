import TaskContract.Schema.Library
import TaskContract.Schema.Format
import TaskContract.Text.Printable

/-!
# Checking a value against a schema

The keywords of a schema are checked in the order in which the schema lists them; a reference
silences everything beside it. Each keyword's rule stands in `keywordOutcome`, over the check of
what is nested one level deeper. A registry keeps the last schema that was compiled under each
identifier; compiling first forgets what the identifier stood for, so a schema that turns out to be
invalid leaves nothing behind.
-/

namespace TaskContract.Schema

/-- Is the value of the type of the given name? An integral floating-point number is an integer,
and a boolean is no number. -/
def isType (name : Text) (v : Json) : Bool :=
  match v with
  | .null => name = "null"
  | .bool _ => name = "boolean"
  | .int _ => name = "integer" || name = "number"
  | .float x => name = "number" || (name = "integer" && x.isIntegral)
  | .str _ => name = "string"
  | .arr _ => name = "array"
  | .obj _ => name = "object"

def compareNumbers? : Json → Json → Option Ordering
  | .int a, .int b => some (compare a b)
  | .int a, .float y => (y.compareInt? a).map Ordering.swap
  | .float x, .int b => x.compareInt? b
  | .float x, .float y => x.compare? y
  | _, _ => none

def isNumber : Json → Bool
  | .int _ => true
  | .float _ => true
  | _ => false

def compareCount (n : Nat) (limit : Json) : Option Ordering :=
  compareNumbers? (.ofNat n) limit

/-- Is one number no multiple of the other? By a floating-point number it is divided with rounding;
by an integer the remainder counts. -/
def failsMultiple (v divisor : Json) : Except Obstacle Bool :=
  match v, divisor with
  | .int a, .int b => .ok (a % b ≠ 0)
  | .float x, .int b =>
    match Binary64.ofInt? b with
    | none => .error .tooLarge
    | some y => .ok (!dividesExactly x y)
  | _, .float y =>
    let x? : Option Binary64 := match v with
      | .int a => Binary64.ofInt? a
      | .float x => some x
      | _ => none
    match x? with
    | none => .error .tooLarge
    | some x =>
      match Binary64.div x y with
      | .nan => .error .notANumber
      | .infinite _ =>
        match x with
        | .finite _ _ _ => .ok (!dividesExactly x y)
        | _ => .error .tooLarge
      | q => .ok (!q.isIntegral)
  | _, _ => .ok false
where
  dividesExactly (x y : Binary64) : Bool :=
    match x, y with
    | .finite _ m k, .finite _ n l => n ≠ 0 && m * twoTo k % (n * twoTo l) = 0
    | .finite _ _ _, .infinite _ => true
    | _, _ => false

def allDistinct : List Json → Bool
  | [] => true
  | v :: rest => !rest.any (fun w => v.equal w) && allDistinct rest

def indexed {α : Type} (xs : List α) : List (Nat × α) :=
  xs.zipIdx.map fun (x, i) => (i, x)

def listed (texts : List Text) : Text :=
  Text.join (Text.ofString ", ") texts

/-- The tail of a message about what is not allowed. -/
def unexpected (what : String) (shown : List Text) : Text :=
  Text.ofString ("Additional " ++ what ++ " are not allowed (") ++ listed shown
    ++ Text.ofString (if shown.length = 1 then " was unexpected)" else " were unexpected)")

/-- The members that neither a name nor a pattern of the schema covers. -/
def additionalMembers (schema instance_ : Members) : Except Obstacle Members :=
  let names := ((Members.get? (Text.ofString "properties") schema).bind Json.obj?).getD []
  let patterns := ((Members.get? (Text.ofString "patternProperties") schema).bind Json.obj?).getD []
  let others := instance_.filter fun (k, _) => !Members.has k names
  let joined := Text.join (Text.ofString "|") (patterns.map Prod.fst)
  if joined.isEmpty || others.isEmpty then .ok others
  else
    match Pattern.read? joined with
    | none => .error .badPattern
    | some p => .ok (others.filter fun (k, _) => !p.search k)

/-- Is the value a text that names one of the members? -/
def isMemberName (members : Members) (v : Json) : Bool :=
  v.str?.any fun name => Members.has name members

def matchesPattern (p t : Text) : Except Obstacle Bool :=
  match Pattern.read? p with
  | some p => .ok (p.search t)
  | none => .error .badPattern

/-- The first item that passes a test, with the items after it. -/
def firstWhere (test : Json → Except Obstacle Bool) :
    List Json → Except Obstacle (Option (Json × List Json))
  | [] => .ok none
  | v :: rest => do
    if ← test v then return some (v, rest)
    firstWhere test rest

def allWhere (test : Json → Except Obstacle Bool) : List Json → Except Obstacle (List Json)
  | [] => .ok []
  | v :: rest => do
    let ok ← test v
    let others ← allWhere test rest
    return if ok then v :: others else others

/-- The check of a value against a schema within a base; the two paths lead there from where the
check is made. -/
abbrev Check :=
  (path schemaPath : List Step) → (base : Text) → (schema value : Json) → Outcome

/-- The rule of one keyword. `check` goes into a schema within this one, whose own identifier then
counts; `within` checks a schema in the place of this one. -/
def keywordOutcome (check within : Json → List Step → List Step → Json → Outcome)
    (follow : Text → Json → Outcome) (schema : Members) (keyword : Text) (v value : Json) :
    Outcome :=
  let fail (message : Text) : Outcome := .ofMessage keyword message
  let failIf (bad : Bool) (message : Text) : Outcome := if bad then fail message else {}
  let shown := value.display
  let say (what : String) : Text := shown ++ Text.ofString what
  let isValid (s : Json) (w : Json) : Except Obstacle Bool := (within s [] [] w).isValid
  let number (bad : Ordering → Bool) (what : String) : Outcome :=
    if isNumber value then
      match compareNumbers? value v with
      | some o => failIf (bad o) (say what ++ v.display)
      | none => {}
    else {}
  let counted (n : Nat) (bad : Ordering) (limit : Nat) (special usual : String) : Outcome :=
    failIf (compareCount n v = some bad)
      (say (if compareCount limit v = some .eq then special else usual))
  if keyword = "$ref" then
    match v with
    | .str r => follow r value
    | _ => .stop .notASchema
  else if keyword = "type" then
    let types := match v with
      | .arr ts => ts
      | t => [t]
    failIf (!types.any fun t => (t.str?.any fun n => isType n value))
      (say " is not of type " ++ listed (types.map Json.display))
  else if keyword = "enum" then
    failIf (!(v.arr?.getD []).any fun w => w.equal value) (say " is not one of " ++ v.display)
  else if keyword = "const" then
    failIf (!value.equal v) (v.display ++ Text.ofString " was expected")
  else if keyword = "minimum" then number (· = .lt) " is less than the minimum of "
  else if keyword = "maximum" then number (· = .gt) " is greater than the maximum of "
  else if keyword = "exclusiveMinimum" then
    number (· ≠ .gt) " is less than or equal to the minimum of "
  else if keyword = "exclusiveMaximum" then
    number (· ≠ .lt) " is greater than or equal to the maximum of "
  else if keyword = "multipleOf" then
    if isNumber value then
      .bind (failsMultiple value v) fun bad =>
        failIf bad (say " is not a multiple of " ++ v.display)
    else {}
  else if keyword = "format" then
    match value, v with
    | .str t, .str f => failIf (!hasFormat f t) (say " is not a " ++ v.display)
    | _, _ => {}
  else if keyword = "if" then
    .bind (isValid v value) fun ok =>
      let branch := Text.ofString (if ok then "then" else "else")
      match Members.get? branch schema with
      | some s => check s [] [.name branch] value
      | none => {}
  else if keyword = "not" then
    .bind (isValid v value) fun ok =>
      failIf ok (say " should not be valid under " ++ v.display)
  else if keyword = "allOf" then
    .each (indexed (v.arr?.getD [])) fun (i, s) => check s [] [.index i] value
  else if keyword = "anyOf" then
    .bind (firstWhere (fun s => (check s [] [] value).isClean) (v.arr?.getD [])) fun found =>
      failIf found.isNone (say " is not valid under any of the given schemas")
  else if keyword = "oneOf" then
    .bind (firstWhere (fun s => (check s [] [] value).isClean) (v.arr?.getD [])) fun found =>
      match found with
      | none => fail (say " is not valid under any of the given schemas")
      | some (first, rest) =>
        .bind (allWhere (fun s => isValid s value) rest) fun others =>
          failIf (!others.isEmpty) (say " is valid under each of "
            ++ listed ((others ++ [first]).map Json.display))
  else
    match value with
    | .str t =>
      if keyword = "minLength" then counted t.length .lt 1 " should be non-empty" " is too short"
      else if keyword = "maxLength" then
        counted t.length .gt 0 " is expected to be empty" " is too long"
      else if keyword = "pattern" then
        match v with
        | .str p => .bind (matchesPattern p t) fun ok =>
          failIf (!ok) (say " does not match " ++ v.display)
        | _ => {}
      else {}
    | .arr values =>
      if keyword = "items" then
        match v with
        | .arr schemas =>
          .each (indexed (values.zip schemas)) fun (i, w, s) => check s [.index i] [.index i] w
        | s => .each (indexed values) fun (i, w) => check s [.index i] [] w
      else if keyword = "additionalItems" then
        match Members.get? (Text.ofString "items") schema with
        | some (.arr schemas) =>
          let more := (indexed values).drop schemas.length
          match v with
          | .obj _ => .each more fun (i, w) => check v [.index i] [] w
          | _ => failIf (!v.isTruthy && !more.isEmpty)
              (unexpected "items" (more.map fun (_, w) => w.display))
        | some (.bool _) => .stop .unusable
        | _ => {}
      else if keyword = "minItems" then
        counted values.length .lt 1 " should be non-empty" " is too short"
      else if keyword = "maxItems" then
        counted values.length .gt 0 " is expected to be empty" " is too long"
      else if keyword = "uniqueItems" then
        failIf (v.isTruthy && !allDistinct values) (say " has non-unique elements")
      else if keyword = "contains" then
        .bind (firstWhere (isValid v) values) fun found =>
          failIf found.isNone (Text.ofString "None of " ++ shown
            ++ Text.ofString " are valid under the given schema")
      else {}
    | .obj members =>
      if keyword = "properties" then
        .each (v.obj?.getD []) fun (k, s) =>
          match Members.get? k members with
          | some w => check s [.name k] [.name k] w
          | none => {}
      else if keyword = "required" then
        .each (v.arr?.getD []) fun k =>
          failIf (!isMemberName members k) (k.display ++ Text.ofString " is a required property")
      else if keyword = "additionalProperties" then
        .bind (additionalMembers schema members) fun extras =>
          match v with
          | .obj _ => .each extras fun (k, w) => check v [.name k] [] w
          | _ =>
            let names := (extras.map Prod.fst).mergeSort Text.le
            match (Members.get? (Text.ofString "patternProperties") schema).bind Json.obj? with
            | some patterns =>
              failIf (!v.isTruthy && !extras.isEmpty)
                (listed (names.map Text.quoted)
                  ++ Text.ofString (if names.length = 1 then " does" else " do")
                  ++ Text.ofString " not match any of the regexes: "
                  ++ listed (((patterns.map Prod.fst).mergeSort Text.le).map Text.quoted))
            | none =>
              failIf (!v.isTruthy && !extras.isEmpty)
                (unexpected "properties" (names.map Text.quoted))
      else if keyword = "patternProperties" then
        .each (v.obj?.getD []) fun (p, s) => .each members fun (k, w) =>
          .bind (matchesPattern p k) fun ok => if ok then check s [.name k] [.name p] w else {}
      else if keyword = "propertyNames" then
        .each members fun (k, _) => check v [] [] (.str k)
      else if keyword = "minProperties" then
        counted members.length .lt 1 " should be non-empty" " does not have enough properties"
      else if keyword = "maxProperties" then
        counted members.length .gt 0 " is expected to be empty" " has too many properties"
      else if keyword = "dependencies" then
        .each (v.obj?.getD []) fun (k, d) =>
          if !Members.has k members then {}
          else
            match d with
            | .arr names => .each names fun n =>
              failIf (!isMemberName members n)
                (n.display ++ Text.ofString " is a dependency of " ++ k.quoted)
            | s => check s [] [.name k] value
      else {}
    | _ => {}

/-- The keywords that add no step to the path of what is within them. -/
def isTransparent (keyword : Text) : Bool :=
  keyword = "if" || keyword = "$ref"

/-- The check of a value against a schema, at most `depth` schemas deep. The schema `false` is
violated at the place where it is met, without the steps to it. -/
def outcome (lib : Library) : (depth : Nat) → (own : Bool) → Check
  | 0, _, _, _, _, _, _ => .stop .tooDeep
  | depth + 1, own, path, schemaPath, base, schema, value =>
    match schema with
    | .bool true => {}
    | .bool false => .refusal value
    | .obj members =>
      let base := if own then ((identifier? schema).map (Uri.join base)).getD base else base
      let check (s : Json) (p sp : List Step) (w : Json) : Outcome :=
        outcome lib depth true p sp base s w
      let within (s : Json) (p sp : List Step) (w : Json) : Outcome :=
        outcome lib depth false p sp base s w
      let follow (r : Text) (w : Json) : Outcome :=
        match lib.resolve base r with
        | .ok t => outcome lib depth false [] [] t.base t.schema w
        | .error e => .stop e
      let active := match Members.get? (Text.ofString "$ref") members with
        | some .null => members
        | some r => [(Text.ofString "$ref", r)]
        | none => members
      let step (k : Text) : List Step := if isTransparent k then [] else [.name k]
      .within path schemaPath (.each active fun (k, v) =>
        .within [] (step k) (keywordOutcome check within follow members k v value))
    | _ => .stop .notASchema

def depthLimit : Nat := 300

structure Validator where
  schema : Json
  library : Library

def Validator.ofSchema (schema : Json) : Validator :=
  { schema, library := Library.ofDocument schema depthLimit }

def Validator.outcome (v : Validator) (value : Json) : Outcome :=
  Schema.outcome v.library depthLimit false [] [] ((identifier? v.schema).getD []) v.schema value

def Validator.violations (v : Validator) (value : Json) : Except Obstacle (List Violation) :=
  let o := v.outcome value
  match o.obstacle with
  | some e => .error e
  | none => .ok (Violation.sort o.violations)

inductive SchemaFault where
  /-- It is not an object. -/
  | notAnObject
  /-- It violates the schema of schemas. -/
  | invalid (message : Text)
  | obstacle (o : Obstacle)
  deriving DecidableEq

/-- The validator of a schema, if the schema is valid: the first violation of the schema of schemas
is reported. -/
def compile (schema : Json) : Except SchemaFault Validator :=
  let o := (Validator.ofSchema metaschema).outcome schema
  match o.violations, o.obstacle with
  | first :: _, _ => .error (.invalid first.message)
  | [], some e => .error (.obstacle e)
  | [], none => .ok (.ofSchema schema)

abbrev Registry := List (Text × Validator)

namespace Registry

def get? (r : Registry) (id : Text) : Option Validator :=
  r.lookup id

def erase (r : Registry) (id : Text) : Registry :=
  r.filter fun e => e.1 ≠ id

/-- Compiles a schema and registers it under its identifier, if it has one. -/
def compile (r : Registry) (schema : Json) : Except SchemaFault Validator × Registry :=
  match schema with
  | .obj members =>
    match Members.get? (Text.ofString "$id") members with
    | some (.str id) =>
      let r := r.erase id
      match Schema.compile schema with
      | .ok v => (.ok v, (id, v) :: r)
      | .error e => (.error e, r)
    | _ => (Schema.compile schema, r)
  | _ => (.error .notAnObject, r)

end Registry

end TaskContract.Schema
