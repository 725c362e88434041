import TaskContract.Text.CodePoint
import TaskContract.Decimal.Binary64

/-!
# JSON values

Integers and floating-point numbers are told apart: a number written without a point and without
an exponent is an integer, of any size. The members of an object keep their order, which shows in
every text the program writes; a name that is written twice keeps its first place and takes its
last value.
-/

namespace TaskContract

inductive Json where
  | null
  | bool (b : Bool)
  | int (n : Int)
  | float (x : Binary64)
  | str (s : Text)
  | arr (items : List Json)
  | obj (members : List (Text × Json))
  deriving Inhabited

abbrev Members := List (Text × Json)

namespace Members

def get? (name : Text) : Members → Option Json
  | [] => none
  | (k, v) :: rest => if k = name then some v else get? name rest

def has (name : Text) (ms : Members) : Bool :=
  (get? name ms).isSome

/-- Sets a member: in its place if the name is there, at the end if it is new. -/
def insert (name : Text) (value : Json) : Members → Members
  | [] => [(name, value)]
  | (k, v) :: rest => if k = name then (k, value) :: rest else (k, v) :: insert name value rest

def ofPairs (pairs : List (Text × Json)) : Members :=
  pairs.foldl (fun ms (k, v) => insert k v ms) []

end Members

namespace Json

/-- The most digits of an integer that is read from a text or written to a file. -/
def digitLimit : Nat := 4300

def digitCount (n : Int) : Nat :=
  (Text.ofNat n.natAbs).length

def digitRefusal (count : String := "") : Text :=
  Text.ofString ("Exceeds the limit (" ++ digitLimit.repr
    ++ " digits) for integer string conversion" ++ count
    ++ "; use sys.set_int_max_str_digits() to increase the limit")

instance : Coe Bool Json := ⟨Json.bool⟩
instance : Coe Text Json := ⟨Json.str⟩
instance : Coe Int Json := ⟨Json.int⟩

def ofNat (n : Nat) : Json := .int n

/-- A text that is written in the program. -/
def ofString (s : String) : Json := .str (Text.ofString s)

/-- An object whose member names are written in the program. -/
def object (ms : List (String × Json)) : Json :=
  .obj (ms.map fun (k, v) => (Text.ofString k, v))

def ofText? : Option Text → Json
  | some t => .str t
  | none => .null

def get? (name : String) : Json → Option Json
  | .obj ms => Members.get? (Text.ofString name) ms
  | _ => none

def isNull : Json → Bool
  | .null => true
  | _ => false

def str? : Json → Option Text
  | .str s => some s
  | _ => none

def arr? : Json → Option (List Json)
  | .arr items => some items
  | _ => none

def obj? : Json → Option Members
  | .obj ms => some ms
  | _ => none

def typeName : Json → String
  | .null => "NoneType"
  | .bool _ => "bool"
  | .int _ => "int"
  | .float _ => "float"
  | .str _ => "str"
  | .arr _ => "list"
  | .obj _ => "dict"

/-- Does the value count as true: is it neither null, false, zero nor empty? -/
def isTruthy : Json → Bool
  | .null => false
  | .bool b => b
  | .int n => n ≠ 0
  | .float (.finite _ m _) => m ≠ 0
  | .float _ => true
  | .str s => !s.isEmpty
  | .arr items => !items.isEmpty
  | .obj ms => !ms.isEmpty

end Json

end TaskContract
