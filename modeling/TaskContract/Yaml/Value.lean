import TaskContract.Json.Value

/-!
# Values of YAML

What nodes stand for. A mapping may have keys of any kind but collections; a later value of a key
takes the place of an earlier one. Dates and the like are no more than their text here.
-/

namespace TaskContract.Yaml

inductive Value where
  | null
  | bool (b : Bool)
  | int (n : Int)
  | float (x : Binary64)
  | str (s : Text)
  | seq (items : List Value)
  | map (pairs : List (Value × Value))
  /-- A date, a point in time or bytes, as it is shown. -/
  | other (shown : Text)
  /-- A collection within itself. -/
  | recursive
  deriving Inhabited

namespace Value

mutual

def ofJson : Json → Value
  | .null => .null
  | .bool b => .bool b
  | .int n => .int n
  | .float x => .float x
  | .str s => .str s
  | .arr items => .seq (ofJsonItems items)
  | .obj ms => .map (ofJsonMembers ms)

def ofJsonItems : List Json → List Value
  | [] => []
  | v :: rest => ofJson v :: ofJsonItems rest

def ofJsonMembers : List (Text × Json) → List (Value × Value)
  | [] => []
  | (k, v) :: rest => (.str k, ofJson v) :: ofJsonMembers rest

end

def number? : Value → Option (Int ⊕ Binary64)
  | .bool b => some (.inl (if b then 1 else 0))
  | .int n => some (.inl n)
  | .float x => some (.inr x)
  | _ => none

def sameNumber : Int ⊕ Binary64 → Int ⊕ Binary64 → Bool
  | .inl a, .inl b => a = b
  | .inl a, .inr y => y.compareInt? a = some .eq
  | .inr x, .inl b => x.compareInt? b = some .eq
  | .inr x, .inr y => x.compare? y = some .eq

/-- Are two values the same key? Numbers are the same if they are equal. -/
def isSameKey (a b : Value) : Bool :=
  match a, b with
  | .null, .null => true
  | .str s, .str t => s = t
  | .other s, .other t => s = t
  | a, b =>
    match a.number?, b.number? with
    | some x, some y => sameNumber x y
    | _, _ => false

def isKey : Value → Bool
  | .seq _ | .map _ | .recursive => false
  | _ => true

/-- Sets the value of a key: in its place if the key is there, at the end if it is new. -/
def insert (key value : Value) : List (Value × Value) → List (Value × Value)
  | [] => [(key, value)]
  | (k, v) :: rest =>
    if isSameKey k key then (k, value) :: rest else (k, v) :: insert key value rest

def ofPairs (pairs : List (Value × Value)) : Value :=
  .map (pairs.foldl (fun ps (k, v) => insert k v ps) [])

def get? (name : Text) : List (Value × Value) → Option Value
  | [] => none
  | (k, v) :: rest => if isSameKey k (.str name) then some v else get? name rest

def isTruthy : Value → Bool
  | .null => false
  | .bool b => b
  | .int n => n ≠ 0
  | .float x => x.compareInt? 0 ≠ some .eq
  | .str s => !s.isEmpty
  | .seq items => !items.isEmpty
  | .map pairs => !pairs.isEmpty
  | .other _ => true
  | .recursive => true

end Value

end TaskContract.Yaml
