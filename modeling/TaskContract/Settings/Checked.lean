import TaskContract.Yaml.Value
import TaskContract.Decimal.Shortest
import TaskContract.Text.CodePoint

/-!
# Checked settings

Settings are read leniently: a number may be written as a text or a boolean. All faults of all
settings are reported, each with its place.
-/

namespace TaskContract

inductive SettingStep where
  | name (t : Text)
  | number (n : Int)
  deriving DecidableEq

inductive SettingFault where
  | missing
  | notAGroup (name : String)
  | notADictionary
  | notAString
  | notAPath
  | notAnInteger
  | notAnIntegerText
  | fractional
  | notANumber
  | notANumberText
  | notFinite
  | refused (reason : String)
  deriving DecidableEq

namespace SettingFault

def code : SettingFault → String
  | missing => "missing"
  | notAGroup _ => "model_type"
  | notADictionary => "dict_type"
  | notAString => "string_type"
  | notAPath => "path_type"
  | notAnInteger => "int_type"
  | notAnIntegerText => "int_parsing"
  | fractional => "int_from_float"
  | notANumber => "float_type"
  | notANumberText => "float_parsing"
  | notFinite => "finite_number"
  | refused _ => "value_error"

def message : SettingFault → String
  | missing => "Field required"
  | notAGroup name => "Input should be a valid dictionary or instance of " ++ name
  | notADictionary => "Input should be a valid dictionary"
  | notAString => "Input should be a valid string"
  | notAPath => "Input is not a valid path for <class 'pathlib.Path'>"
  | notAnInteger => "Input should be a valid integer"
  | notAnIntegerText => "Input should be a valid integer, unable to parse string as an integer"
  | fractional => "Input should be a valid integer, got a number with a fractional part"
  | notANumber => "Input should be a valid number"
  | notANumberText => "Input should be a valid number, unable to parse string as a number"
  | notFinite => "Input should be a finite number"
  | refused reason => "Value error, " ++ reason

end SettingFault

structure PlacedFault where
  place : List SettingStep
  fault : SettingFault
  deriving DecidableEq

def PlacedFault.text (f : PlacedFault) : Text :=
  let step : SettingStep → Text
    | .name t => t
    | .number n => Text.ofInt n
  Text.join (Text.ofString ".") (f.place.map step) ++ Text.ofString ("\n  " ++ f.fault.message)

/-- A value, or all the faults that there are in its stead. -/
abbrev Checked (α : Type) := Except (List PlacedFault) α

namespace Checked

def fault {α : Type} (f : SettingFault) : Checked α :=
  .error [{ place := [], fault := f }]

/-- The faults as seen from one step further out. -/
def under {α : Type} (step : SettingStep) (c : Checked α) : Checked α :=
  c.mapError fun fs => fs.map fun f => { f with place := step :: f.place }

def both {α β : Type} (a : Checked α) (b : Checked β) : Checked (α × β) :=
  match a, b with
  | .ok x, .ok y => .ok (x, y)
  | .ok _, .error fs => .error fs
  | .error fs, .ok _ => .error fs
  | .error fs, .error gs => .error (fs ++ gs)

def all {α : Type} : List (Checked α) → Checked (List α)
  | [] => .ok []
  | c :: rest => (both c (all rest)).map fun (x, xs) => x :: xs

def requiring {α : Type} (c : Checked α) (p : α → Bool) (reason : String) : Checked α :=
  c.bind fun x => if p x then .ok x else fault (.refused reason)

end Checked

namespace Setting

/-- White space at the ends of a number. -/
def isTrimmed (c : CodePoint) : Bool :=
  c.isBlank && !(0x1C ≤ c.val && c.val ≤ 0x1F)

def trimmed (t : Text) : Text :=
  ((t.dropWhile isTrimmed).reverse.dropWhile isTrimmed).reverse

/-- The text without its underscores, if each stands between two other code points. -/
def withoutUnderscores (t : Text) : Text :=
  let line := CodePoint.ofChar '_'
  if t.head? = some line || t.getLast? = some line || Text.includes [line, line] t then t
  else t.filter fun c => c ≠ line

/-- The text without the zeros in front of its first other digit, if it begins as a number does. -/
def withoutZeros (t : Text) : Option Text :=
  let isZero (c : CodePoint) : Bool := c = '0'
  match t with
  | [] => none
  | c :: rest =>
    if isZero c then
      let front := rest.takeWhile fun d => isZero d || d = '_'
      match rest.drop front.length with
      | [] => some ((c :: front).drop front.length)
      | d :: more =>
        if d.isDigit then some (d :: more)
        else if d = '.' then some ((c :: front).drop front.length ++ d :: more)
        else none
    else if c.isDigit || c = '-' then some t
    else none

def withoutPlaces (t : Text) : Text :=
  let whole := t.takeWhile fun (c : CodePoint) => c ≠ '.'
  let places := t.drop (whole.length + 1)
  if places.all fun (c : CodePoint) => c = '0' then whole else t

/-- The integer that digits with an optional minus are, if there are no needless zeros. -/
def strictInteger? (t : Text) : Option Int :=
  let (negative, digits) : Bool × Text := match t with
    | c :: rest => if c = '-' then (true, rest) else (false, t)
    | [] => (false, t)
  let isPlain := digits.all CodePoint.isDigit && !digits.isEmpty
    && (digits.length = 1 || digits.head? ≠ some (CodePoint.ofChar '0'))
  if isPlain then
    let n : Int := Text.digitsValue digits
    some (if negative then -n else n)
  else none

def integerOf? (t : Text) : Option Int :=
  let t := trimmed t
  match strictInteger? t with
  | some n => some n
  | none =>
    let t := (t.dropFront? (Text.ofString "+")).getD t
    ((withoutZeros t).bind fun t => strictInteger? (withoutUnderscores (withoutPlaces t)))

def integer (v : Yaml.Value) : Checked Int :=
  match v with
  | .int n => .ok n
  | .bool b => .ok (if b then 1 else 0)
  | .float x =>
    match x.truncate? with
    | none => Checked.fault .notFinite
    | some n => if x.isIntegral then .ok n else Checked.fault .fractional
  | .str t =>
    match integerOf? t with
    | some n => .ok n
    | none => Checked.fault .notAnIntegerText
  | _ => Checked.fault .notAnInteger

/-- The digits of a number with or without a point, and an exponent if there is one. -/
def decimal? (negative : Bool) (t : Text) : Option Binary64 :=
  let whole := t.takeWhile CodePoint.isDigit
  let rest := t.drop whole.length
  let (places, rest) : Text × Text := match rest with
    | c :: more => if c = '.' then more.span CodePoint.isDigit else ([], rest)
    | [] => ([], rest)
  let power : Option Int := match rest with
    | [] => some 0
    | e :: more =>
      if e = 'e' || e = 'E' then
        let (minus, digits) : Bool × Text := match more with
          | s :: ds =>
            if s = '-' then (true, ds) else if s = '+' then (false, ds) else (false, more)
          | [] => (false, more)
        if digits.all CodePoint.isDigit && !digits.isEmpty then
          let n : Int := Text.digitsValue digits
          some (if minus then -n else n)
        else none
      else none
  if whole.isEmpty && places.isEmpty then none
  else power.map fun e =>
    .ofDecimal negative (Text.digitsValue (whole ++ places)) (e - places.length)

def strictNumber? (t : Text) : Option Binary64 :=
  let (negative, u) : Bool × Text := match t with
    | c :: rest => if c = '-' then (true, rest) else if c = '+' then (false, rest) else (false, t)
    | [] => (false, t)
  let word := u.asciiLower
  if word = Text.ofString "inf" || word = Text.ofString "infinity" then some (.infinite negative)
  else if word = Text.ofString "nan" then some .nan
  else decimal? negative u

def numberOf? (t : Text) : Option Binary64 :=
  let t := trimmed t
  match strictNumber? t with
  | some x => some x
  | none => if t.contains (CodePoint.ofChar '_') then strictNumber? (withoutUnderscores t) else none

def number (v : Yaml.Value) : Checked Binary64 :=
  match v with
  | .float x => .ok x
  | .int n =>
    match Binary64.ofInt? n with
    | some x => .ok x
    | none => Checked.fault .notANumber
  | .bool b => .ok (if b then .ofRatio false 1 1 else .zero)
  | .str t =>
    match numberOf? t with
    | some x => .ok x
    | none => Checked.fault .notANumberText
  | _ => Checked.fault .notANumber

def string (v : Yaml.Value) : Checked Text :=
  match v with
  | .str t => .ok t
  | _ => Checked.fault .notAString

def group (name : String) (v : Yaml.Value) : Checked (List (Yaml.Value × Yaml.Value)) :=
  match v with
  | .map pairs => .ok pairs
  | _ => Checked.fault (.notAGroup name)

/-- The value of a setting in a group, or the given one if it is absent. -/
def field {α : Type} (pairs : List (Yaml.Value × Yaml.Value)) (name : String) (absent : Checked α)
    (check : Yaml.Value → Checked α) : Checked α :=
  let name := Text.ofString name
  Checked.under (.name name) (match Yaml.Value.get? name pairs with
    | some v => check v
    | none => absent)

def stepTo : Yaml.Value → SettingStep
  | .str t => .name t
  | .int n =>
    if -(twoTo 63 : Int) ≤ n ∧ n < (twoTo 63 : Int) then .number n else .name (Text.ofInt n)
  | .bool b => .number (if b then 1 else 0)
  | .null => .name (Text.ofString "None")
  | .float x => .name (x.text Binary64.displayNames)
  | .other t => .name t
  | _ => .name []

/-- A dictionary with texts for keys. A key that is none is a fault beside those of its value. -/
def dictionary {α : Type} (check : Yaml.Value → Checked α) (v : Yaml.Value) :
    Checked (List (Text × α)) :=
  match v with
  | .map pairs => Checked.all (pairs.map fun (k, w) =>
      Checked.both
        (Checked.under (stepTo k) (Checked.under (.name (Text.ofString "[key]")) (string k)))
        (Checked.under (stepTo k) (check w)))
  | _ => Checked.fault .notADictionary

end Setting

end TaskContract
