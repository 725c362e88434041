import TaskContract.Chat.Request
import TaskContract.Text.CodePoint

/-!
# Environment files

A file of assignments `NAME=value` adds variables to the environment and never changes those that
are there. A value may be quoted, and may refer to other variables as `${NAME}` or
`${NAME:-default}`. A line that is no assignment is passed over.
-/

namespace TaskContract

structure Assignment where
  name : Text
  value : Option Text
  deriving DecidableEq

inductive VariableFault where
  | embeddedNull
  | illegalName
  deriving DecidableEq

def VariableFault.message : VariableFault → Text
  | embeddedNull => Text.ofString "embedded null byte"
  | illegalName => Text.ofString "illegal environment variable name"

namespace EnvironmentFile

def isInlineBlank (c : CodePoint) : Bool :=
  c.isBlank && c ≠ '\n' && c ≠ '\r'

def skipInline (t : Text) : Text :=
  t.dropWhile isInlineBlank

def skipExport (t : Text) : Text :=
  match t.dropFront? (Text.ofString "export") with
  | some (c :: rest) => if isInlineBlank c then skipInline rest else t
  | _ => t

/-- The offset of the first quote that does not follow a backslash. -/
def bareQuote? (quote : CodePoint) : (offset : Nat) → (escaped : Bool) → Text → Option Nat
  | _, _, [] => none
  | offset, escaped, c :: rest =>
    if c = quote && !escaped then some offset
    else bareQuote? quote (offset + 1) (c = '\\') rest

/-- What is between an opening quote, which is already read, and the closing one: the first quote
that does not follow a backslash, or the last of all if each follows one. -/
def quotedPart? (quote : CodePoint) (t : Text) : Option (Text × Text) :=
  match bareQuote? quote 0 false t with
  | some i => some (t.take i, t.drop (i + 1))
  | none => (Text.lastIndexOf? quote t).map fun i => (t.take i, t.drop (i + 1))

def doubleEscapes : List (CodePoint × CodePoint) :=
  [('\\', '\\'), ('\'', '\''), ('"', '"'), ('a', '\x07'), ('b', '\x08'), ('f', '\x0c'),
   ('n', '\n'), ('r', '\r'), ('t', '\t'), ('v', '\x0b')]

def singleEscapes : List (CodePoint × CodePoint) :=
  [('\\', '\\'), ('\'', '\'')]

/-- The text with its escapes replaced. A backslash before anything else stays. -/
def decode (escapes : List (CodePoint × CodePoint)) : Text → Text
  | [] => []
  | [c] => [c]
  | c :: d :: rest =>
    if c = '\\' then
      match escapes.lookup d with
      | some e => e :: decode escapes rest
      | none => c :: decode escapes (d :: rest)
    else c :: decode escapes (d :: rest)

/-- The text before the first blanks with a number sign after them. -/
def beforeComment : Text → Text
  | [] => []
  | c :: rest =>
    if c.isBlank && (rest.dropWhile CodePoint.isBlank).head? = some (CodePoint.ofChar '#') then []
    else c :: beforeComment rest

def atLineEnd : Text → Bool
  | [] => true
  | c :: _ => c = '\n' || c = '\r'

def untilLineEnd (t : Text) : Text :=
  t.takeWhile fun (c : CodePoint) => c ≠ '\n' && c ≠ '\r'

def fromLineEnd (t : Text) : Text :=
  t.dropWhile fun (c : CodePoint) => c ≠ '\n' && c ≠ '\r'

def skipLine (t : Text) : Text :=
  (fromLineEnd t).drop 1

/-- A part of a line that was read, or the place where reading failed. -/
abbrev Part (α : Type) := Except Text (α × Text)

def readName (t : Text) : Part (Option Text) :=
  match t with
  | [] => .error t
  | c :: rest =>
    if c = '#' then .ok (none, t)
    else if c = '\'' then
      let name := rest.takeWhile fun (d : CodePoint) => d ≠ '\''
      match rest.drop name.length with
      | _ :: after => if name.isEmpty then .error t else .ok (some name, after)
      | [] => .error t
    else
      let name := t.takeWhile fun (d : CodePoint) => d ≠ '=' && d ≠ '#' && !d.isBlank
      if name.isEmpty then .error t else .ok (some name, t.drop name.length)

def readValue (t : Text) : Part Text :=
  let enclosed (quote : CodePoint) (escapes : List (CodePoint × CodePoint)) (rest : Text) :
      Part Text :=
    match quotedPart? quote rest with
    | some (inner, rest) => .ok (decode escapes inner, rest)
    | none => .error t
  match t with
  | [] => .ok ([], [])
  | c :: rest =>
    if c = '\'' then enclosed c singleEscapes rest
    else if c = '"' then enclosed c doubleEscapes rest
    else .ok ((beforeComment (untilLineEnd t)).trimEnd, fromLineEnd t)

def readDefinition (t : Text) : Part (Option Text) :=
  match skipInline t with
  | [] => .ok (none, [])
  | c :: rest =>
    if c = '=' then (readValue (skipInline rest)).map fun (v, rest) => (some v, rest)
    else .ok (none, c :: rest)

def readLineEnd (t : Text) : Part Unit :=
  let rest := skipInline t
  let rest := if rest.head? = some (CodePoint.ofChar '#') then fromLineEnd rest else rest
  if atLineEnd rest then .ok ((), rest.drop 1) else .error rest

def readStatement (t : Text) : Part (Option Assignment) :=
  (readName (skipExport t)).bind fun (name, rest) =>
    (readDefinition rest).bind fun (value, rest) =>
      (readLineEnd rest).map fun ((), rest) => (name.map fun name => { name, value }, rest)

/-- The assignments of a text, whose statements are at most as many as the fuel. -/
def readAll : (fuel : Nat) → Text → List Assignment
  | 0, _ => []
  | fuel + 1, t =>
    match t.dropWhile CodePoint.isBlank with
    | [] => []
    | start =>
      match readStatement start with
      | .ok (some a, rest) => a :: readAll fuel rest
      | .ok (none, rest) => readAll fuel rest
      | .error rest => readAll fuel (skipLine rest)

def read (t : Text) : List Assignment :=
  readAll (t.length + 1) t

/-! ## References -/

structure Reference where
  name : Text
  otherwise : Text

def reference? (t : Text) : Option (Reference × Text) := do
  let inner ← t.dropFront? (Text.ofString "$\x7b")
  let isName (c : CodePoint) : Bool := c ≠ '\x7d' && c ≠ ':'
  let name := inner.takeWhile isName
  match inner.drop name.length with
  | [] => none
  | c :: rest =>
    if c = '\x7d' then some (⟨name, []⟩, rest)
    else
      match rest with
      | d :: rest =>
        let otherwise := rest.takeWhile fun (e : CodePoint) => e ≠ '\x7d'
        if d = '-' && otherwise.length < rest.length then
          some (⟨name, otherwise⟩, rest.drop (otherwise.length + 1))
        else none
      | [] => none

/-- The value that the environment gives a name, or else an earlier assignment. A name assigned
without a value has the empty one. -/
def valueOf (env : Chat.Environment) (earlier : List Assignment) (r : Reference) : Text :=
  match env.lookup r.name with
  | some v => v
  | none =>
    match earlier.find? fun a => a.name = r.name with
    | some a => a.value.getD []
    | none => r.otherwise

/-- The text with its references replaced; the first code points are skipped. -/
def expandAfter (value : Reference → Text) : (skip : Nat) → Text → Text
  | _, [] => []
  | skip + 1, _ :: rest => expandAfter value skip rest
  | 0, c :: rest =>
    match reference? (c :: rest) with
    | some (r, after) => value r ++ expandAfter value (rest.length - after.length) rest
    | none => c :: expandAfter value 0 rest

def expand (value : Reference → Text) (t : Text) : Text :=
  expandAfter value 0 t

def referencesAfter : (skip : Nat) → Text → List Reference
  | _, [] => []
  | skip + 1, _ :: rest => referencesAfter skip rest
  | 0, c :: rest =>
    match reference? (c :: rest) with
    | some (r, after) => r :: referencesAfter (rest.length - after.length) rest
    | none => referencesAfter 0 rest

/-- The names of the variables that a file sets or refers to. -/
def names (t : Text) : List Text :=
  (read t).flatMap fun a => a.name :: (referencesAfter 0 (a.value.getD [])).map (·.name)

/-- The assignments with their references replaced, the last of each name alone. -/
def resolve (env : Chat.Environment) (as : List Assignment) : List Assignment :=
  let step (done : List Assignment) (a : Assignment) : List Assignment :=
    let a := { a with value := a.value.map (expand (valueOf env done)) }
    if done.any fun b => b.name = a.name then
      done.map fun b => if b.name = a.name then a else b
    else done ++ [a]
  as.foldl step []

/-! ## Effect -/

def fault? (name value : Text) : Option VariableFault :=
  let null := CodePoint.ofNat 0
  if name.contains (CodePoint.ofChar '=') then some .illegalName
  else if name.contains null || value.contains null then some .embeddedNull
  else none

/-- Adds variables that are not there yet, up to the first that cannot be set. -/
def addAll : Chat.Environment → List Assignment → Except VariableFault Unit × Chat.Environment
  | env, [] => (.ok (), env)
  | env, a :: rest =>
    match a.value with
    | none => addAll env rest
    | some v =>
      if (env.lookup a.name).isSome then addAll env rest
      else
        match fault? a.name v with
        | some f => (.error f, env)
        | none => addAll (env ++ [(a.name, v)]) rest

def load (env : Chat.Environment) (t : Text) : Except VariableFault Unit × Chat.Environment :=
  addAll env (resolve env (read t))

end EnvironmentFile

end TaskContract
