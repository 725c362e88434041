import TaskContract.Yaml.Node
import TaskContract.Yaml.Scalar

/-!
# Documents

The value of a document. A mapping under the key `<<` lends its pairs to the mapping it stands in,
behind which its own pairs count; several are lent from a sequence, the first of them counting most.
-/

namespace TaskContract.Yaml

/-- Why a text has no value: it is malformed, or a scalar in it has none. -/
inductive Fault where
  | malformed
  | scalar (f : ScalarFault)
  deriving DecidableEq

def standardTag (name : String) : Text :=
  Text.ofString ("tag:yaml.org,2002:" ++ name)

def taggedScalar (tag text : Text) : Except Fault Value :=
  let scalar (r : Except ScalarFault Value) : Except Fault Value := r.mapError Fault.scalar
  if tag = standardTag "str" then .ok (.str text)
  else if tag = standardTag "null" then .ok .null
  else if tag = standardTag "bool" then
    scalar (((boolean? text.asciiLower).map fun b => .ok (.bool b)).getD (.error .noBoolean))
  else if tag = standardTag "int" then scalar ((saidInteger text).map Value.int)
  else if tag = standardTag "float" then scalar ((saidFloat text).map Value.float)
  else if tag = standardTag "timestamp" then scalar ((date? text).getD (.error .noDate))
  else if tag = standardTag "binary" then .ok (.other text)
  else .error .malformed

def scalarValue (tag : Option Text) (text : Text) (plain : Bool) : Except Fault Value :=
  match tag with
  | some t => taggedScalar t text
  | none =>
    if !plain then .ok (.str text)
    else
      match plainValue? text with
      | some (.ok v) => .ok v
      | some (.error e) => .error (.scalar e)
      | none => .error .malformed

def isMerge : Node → Bool
  | .scalar none text true => text = Text.ofString "<<"
  | .scalar (some tag) _ _ => tag = standardTag "merge"
  | _ => false

/-- Is the key the sign of equality, which stands for its text? -/
def isEquality : Node → Bool
  | .scalar none text true => text = Text.ofString "="
  | .scalar (some tag) _ _ => tag = standardTag "value"
  | _ => false

def scalarText : Node → Text
  | .scalar _ text _ => text
  | _ => []

mutual

def valueOf : Node → Except Fault Value
  | .scalar tag text plain => scalarValue tag text plain
  | .recursive => .ok .recursive
  | .sequence tag items =>
    if tag.all fun t => t = standardTag "seq" then (itemsOf items).map Value.seq
    else if tag.any fun t => t = standardTag "omap" || t = standardTag "pairs" then
      (singlePairsOf items).map Value.seq
    else .error .malformed
  | .mapping tag pairs =>
    if tag.all fun t => t = standardTag "map" then
      (pairsOf pairs).map fun (lent, own) => Value.ofPairs (lent ++ own)
    else if tag.any fun t => t = standardTag "set" then
      (pairsOf pairs).map fun (lent, own) => .seq ((lent ++ own).map (·.1))
    else .error .malformed

def itemsOf : List Node → Except Fault (List Value)
  | [] => .ok []
  | n :: rest => do
    let v ← valueOf n
    let vs ← itemsOf rest
    return v :: vs

def singlePairsOf : List Node → Except Fault (List Value)
  | [] => .ok []
  | .mapping _ [(k, v)] :: rest => do
    let key ← valueOf k
    let value ← valueOf v
    let vs ← singlePairsOf rest
    return .seq [key, value] :: vs
  | _ :: _ => .error .malformed

/-- The pairs of a mapping: those lent to it and its own. -/
def pairsOf : List (Node × Node) → Except Fault (List (Value × Value) × List (Value × Value))
  | [] => .ok ([], [])
  | (k, v) :: rest => do
    if isMerge k then
      let first ← lentBy v
      let (lent, own) ← pairsOf rest
      return (first ++ lent, own)
    else
      let key ← if isEquality k then .ok (.str (scalarText k)) else valueOf k
      if !key.isKey then throw .malformed
      let value ← valueOf v
      let (lent, own) ← pairsOf rest
      return (lent, (key, value) :: own)

def lentBy : Node → Except Fault (List (Value × Value))
  | .mapping _ pairs => (pairsOf pairs).map fun (lent, own) => lent ++ own
  | .sequence _ items => lentByAll items
  | _ => .error .malformed

/-- The pairs that the mappings of a sequence lend, the last mapping first. -/
def lentByAll : List Node → Except Fault (List (Value × Value))
  | [] => .ok []
  | .mapping _ pairs :: rest => do
    let (lent, own) ← pairsOf pairs
    let more ← lentByAll rest
    return more ++ lent ++ own
  | _ :: _ => .error .malformed

end

/-- The value of the document in a text, null if there is none. -/
def read (t : Text) : Except Fault Value :=
  match document? t with
  | none => .error .malformed
  | some none => .ok .null
  | some (some n) => valueOf n

end TaskContract.Yaml
