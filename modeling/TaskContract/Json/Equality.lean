import TaskContract.Json.Value

/-!
# Equality of JSON values

Numbers are equal by value, whether written as integers or not; a NaN differs from itself; a
boolean is equal only to a boolean; objects are equal whatever the order of their members.
-/

namespace TaskContract

namespace Json

def scalarEq : Json → Json → Bool
  | .null, .null => true
  | .bool a, .bool b => a = b
  | .int a, .int b => a = b
  | .int a, .float y => y.compareInt? a = some .eq
  | .float x, .int b => x.compareInt? b = some .eq
  | .float x, .float y => x.compare? y = some .eq
  | .str a, .str b => a = b
  | _, _ => false

mutual

def equal : Json → Json → Bool
  | .arr a, .arr b => equalItems a b
  | .obj a, .obj b => a.length = b.length && equalMembers a b
  | .null, w => scalarEq .null w
  | .bool a, w => scalarEq (.bool a) w
  | .int n, w => scalarEq (.int n) w
  | .float x, w => scalarEq (.float x) w
  | .str s, w => scalarEq (.str s) w
  | .arr _, _ => false
  | .obj _, _ => false

def equalItems : List Json → List Json → Bool
  | [], [] => true
  | v :: rest, w :: rest' => equal v w && equalItems rest rest'
  | _, _ => false

def equalMembers : List (Text × Json) → Members → Bool
  | [], _ => true
  | (k, v) :: rest, other =>
    (match Members.get? k other with
      | some w => equal v w
      | none => false) && equalMembers rest other

end

end Json

end TaskContract
