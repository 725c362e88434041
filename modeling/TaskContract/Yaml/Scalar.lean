import TaskContract.Text.Printable
import TaskContract.Text.WordCharacter
import TaskContract.Yaml.Value

/-!
# Scalars

What a scalar without quotes and without a tag stands for is read off its text: a null, a boolean,
a number, a date, or else the text. Numbers may have underscores and may be written in base sixty.
A scalar with a tag is read more freely, as the kind of value that the tag names.
-/

namespace TaskContract.Yaml

inductive ScalarFault where
  | monthOutOfRange
  | dayOutOfRange
  | yearOutOfRange (year : Nat)
  | timeOutOfRange (part : String) (limit : Nat)
  | noInteger (base : Nat) (text : Text)
  | noFloat (text : Text)
  | noBoolean
  | noDate
  deriving DecidableEq

def ScalarFault.message : ScalarFault → Text
  | monthOutOfRange => Text.ofString "month must be in 1..12"
  | dayOutOfRange => Text.ofString "day is out of range for month"
  | yearOutOfRange y => Text.ofString ("year " ++ y.repr ++ " is out of range")
  | timeOutOfRange part limit => Text.ofString (part ++ " must be in 0.." ++ limit.repr)
  | noInteger base text =>
    Text.ofString ("invalid literal for int() with base " ++ base.repr ++ ": ") ++ text.quoted
  | noFloat text => Text.ofString "could not convert string to float: " ++ text.quoted
  | noBoolean => Text.ofString "not a boolean"
  | noDate => Text.ofString "not a date"

def isAmong (words : List String) (t : Text) : Bool :=
  words.any fun w => t = Text.ofString w

def boolean? (t : Text) : Option Bool :=
  if isAmong ["yes", "Yes", "YES", "true", "True", "TRUE", "on", "On", "ON"] t then some true
  else if isAmong ["no", "No", "NO", "false", "False", "FALSE", "off", "Off", "OFF"] t then
    some false
  else none

def isNull (t : Text) : Bool :=
  t.isEmpty || isAmong ["~", "null", "Null", "NULL"] t

def isRun (p : CodePoint → Bool) (t : Text) : Bool :=
  !t.isEmpty && t.all p

def isDigitOrLine (c : CodePoint) : Bool :=
  c.isDigit || c = '_'

/-- The sign of a number, true for a minus, and the rest. -/
def signed (t : Text) : Bool × Text :=
  match t with
  | c :: rest => if c = '-' then (true, rest) else if c = '+' then (false, rest) else (false, t)
  | [] => (false, t)

def withoutLines (t : Text) : Text :=
  t.filter fun c => c ≠ CodePoint.ofChar '_'

def valueIn (base : Nat) (t : Text) : Nat :=
  t.foldl (fun n c => base * n + (c.hexValue?).getD 0) 0

def isSixtieth : Text → Bool
  | [a] => a.isDigit
  | [a, b] => a.isBetween '0' '5' && b.isDigit
  | _ => false

def magnitude? (u : Text) : Option (Except ScalarFault Nat) :=
  let inBase (base : Nat) (front : String) (p : CodePoint → Bool) :
      Option (Except ScalarFault Nat) :=
    match u.dropFront? (Text.ofString front) with
    | some rest =>
      if isRun (fun c => p c || c = '_') rest then
        let digits := withoutLines rest
        if digits.isEmpty && front ≠ "0" then some (.error (.noInteger base []))
        else some (.ok (valueIn base digits))
      else none
    | none => none
  let isDecimal (t : Text) : Bool :=
    t.head?.any (fun c => c.isBetween '1' '9') && t.all isDigitOrLine
  match inBase 2 "0b" (fun c => c.isBetween '0' '1'), inBase 8 "0" (fun c => c.isBetween '0' '7'),
      inBase 16 "0x" CodePoint.isHexDigit with
  | some r, _, _ => some r
  | none, some r, _ => some r
  | none, none, some r => some r
  | none, none, none =>
    if u = Text.ofString "0" then some (.ok 0)
    else if isDecimal u then some (.ok (Text.digitsValue (withoutLines u)))
    else
      match Text.splitOn ':' u with
      | first :: second :: rest =>
        if isDecimal first && (second :: rest).all isSixtieth then
          some (.ok ((first :: second :: rest).foldl
            (fun n part => 60 * n + Text.digitsValue (withoutLines part)) 0))
        else none
      | _ => none

def integer? (t : Text) : Option (Except ScalarFault Int) :=
  let (negative, u) := signed t
  (magnitude? u).map fun r => r.map fun n => if negative then -(n : Int) else n

/-- The integer that a scalar is if it is said to be one. -/
def saidInteger (t : Text) : Except ScalarFault Int :=
  match integer? t with
  | some r => r
  | none =>
    let (negative, u) := signed (withoutLines t)
    let refuse (base : Nat) (text : Text) : Except ScalarFault Int := .error (.noInteger base text)
    if u.startsWith (Text.ofString "0b") then refuse 2 (u.drop 2)
    else if u.startsWith (Text.ofString "0x") then refuse 16 (u.drop 2)
    else if u.startsWith (Text.ofString "0") then refuse 8 u
    else
      match (Text.splitOn ':' u).find? fun part => part.wholeNumber?.isNone, u.wholeNumber? with
      | some part, _ => refuse 10 part
      | none, some n => .ok (if negative then -n else n)
      | none, none => refuse 10 u

/-- The exponent at the end of a number: none at all, or one with a sign. -/
def exponent? (t : Text) : Option Int :=
  match t with
  | [] => some 0
  | e :: sign :: digits =>
    if (e = 'e' || e = 'E') && (sign = '+' || sign = '-') && isRun CodePoint.isDigit digits then
      let n : Int := Text.digitsValue digits
      some (if sign = '-' then -n else n)
    else none
  | _ => none

/-- A number with a point: the digits before it, those behind it, and the exponent. -/
def pointed? (u : Text) : Option (Text × Text × Int) :=
  let whole := u.takeWhile isDigitOrLine
  match u.drop whole.length with
  | [] => none
  | c :: rest =>
    let places := rest.takeWhile isDigitOrLine
    match exponent? (rest.drop places.length) with
    | some e => if c = '.' then some (withoutLines whole, withoutLines places, e) else none
    | none => none

/-- A number in base sixty whose last part has a point. -/
def sexagesimal? (u : Text) : Option Binary64 :=
  let whole := u.takeWhile fun (c : CodePoint) => c ≠ '.'
  let places := u.drop (whole.length + 1)
  let parts := Text.splitOn ':' whole
  let isFirst (t : Text) : Bool := t.head?.any CodePoint.isDigit && t.all isDigitOrLine
  if whole.length < u.length && 1 < parts.length && parts.head?.any isFirst
      && (parts.drop 1).all isSixtieth && places.all isDigitOrLine then
    let digits := withoutLines places
    let number (t : Text) : Binary64 := .ofDecimal false (Text.digitsValue (withoutLines t)) 0
    let last := Binary64.ofDecimal false
      (Text.digitsValue ((parts.getLast?.getD []) ++ digits)) (-(digits.length : Int))
    let (sum, _) := (parts.dropLast.reverse).foldl
      (fun (acc : Binary64 × Nat) part => (acc.1.plus ((number part).times acc.2), 60 * acc.2))
      (last, 60)
    some sum
  else none

def float? (t : Text) : Option Binary64 :=
  let (negative, u) := signed t
  let isSigned := u.length < t.length
  let sign (x : Binary64) : Binary64 := if negative then x.negate else x
  if isAmong [".inf", ".Inf", ".INF"] u then some (.infinite negative)
  else if isAmong [".nan", ".NaN", ".NAN"] t then some .nan
  else
    match pointed? u with
    | some (whole, places, e) =>
      let startsRight := u.head?.any CodePoint.isDigit
        || (!isSigned && whole.isEmpty && (u.drop 1).head?.any CodePoint.isDigit)
      if startsRight then
        some (.ofDecimal negative (Text.digitsValue (whole ++ places)) (e - places.length))
      else none
    | none => (sexagesimal? u).map sign

/-- A number as it is commonly written, perhaps without a point and with an exponent without a
sign. -/
def commonFloat? (u : Text) : Option Binary64 :=
  let whole := u.takeWhile CodePoint.isDigit
  let (places, rest) : Text × Text :=
    match u.drop whole.length with
    | c :: rest => if c = '.' then rest.span CodePoint.isDigit else ([], c :: rest)
    | [] => ([], [])
  let exponent : Option Int :=
    match rest with
    | [] => some 0
    | e :: digits =>
      let (negative, digits) := signed digits
      if e = 'e' && isRun CodePoint.isDigit digits then
        some (if negative then -(Text.digitsValue digits : Int) else Text.digitsValue digits)
      else none
  if isAmong ["inf", "infinity"] u then some (.infinite false)
  else if u = Text.ofString "nan" then some .nan
  else if whole.isEmpty && places.isEmpty then none
  else exponent.map fun e =>
    .ofDecimal false (Text.digitsValue (whole ++ places)) (e - places.length)

def saidFloat (t : Text) : Except ScalarFault Binary64 :=
  match float? t with
  | some x => .ok x
  | none =>
    let (negative, u) := signed (withoutLines t).asciiLower
    match commonFloat? u.trim with
    | some x => .ok (if negative then x.negate else x)
    | none => .error (.noFloat u)

def isLeap (year : Nat) : Bool :=
  (year % 4 = 0 && year % 100 ≠ 0) || year % 400 = 0

def lengthOfMonth (year month : Nat) : Nat :=
  if month = 2 then (if isLeap year then 29 else 28)
  else if month = 4 || month = 6 || month = 9 || month = 11 then 30
  else 31

def checkDate (year month day : Nat) : Except ScalarFault Unit :=
  if year = 0 then .error (.yearOutOfRange year)
  else if month = 0 || 12 < month then .error .monthOutOfRange
  else if day = 0 || lengthOfMonth year month < day then .error .dayOutOfRange
  else .ok ()

def isZone (t : Text) : Bool :=
  let t := t.dropWhile fun (c : CodePoint) => c = ' ' || c = '\t'
  match t with
  | [] => true
  | c :: rest =>
    if c = 'Z' then rest.isEmpty
    else if c = '+' || c = '-' then
      match Text.splitOn ':' rest with
      | [h] => isRun CodePoint.isDigit h && h.length ≤ 2
      | [h, m] =>
        isRun CodePoint.isDigit h && h.length ≤ 2 && isRun CodePoint.isDigit m && m.length = 2
      | _ => false
    else false

/-- The clock of a point in time: hours, minutes and seconds. -/
def clock? (t : Text) : Option (Nat × Nat × Nat) :=
  let (hour, t) := t.span CodePoint.isDigit
  let minute := (t.drop 1).take 2
  let second := (t.drop 4).take 2
  let rest := t.drop 6
  let colon := some (CodePoint.ofChar ':')
  let rest := match rest with
    | c :: more => if c = '.' then more.dropWhile CodePoint.isDigit else rest
    | [] => rest
  if isRun CodePoint.isDigit hour && hour.length ≤ 2 && t[0]? = colon && t[3]? = colon
      && minute.length = 2 && minute.all CodePoint.isDigit && second.length = 2
      && second.all CodePoint.isDigit
      && (isZone rest && (rest.isEmpty || t.length ≠ 6)) then
    some (Text.digitsValue hour, Text.digitsValue minute, Text.digitsValue second)
  else none

def date? (t : Text) : Option (Except ScalarFault Value) :=
  let (year, t') := t.span CodePoint.isDigit
  let (month, t'') := (t'.drop 1).span CodePoint.isDigit
  let (day, rest) := (t''.drop 1).span CodePoint.isDigit
  let dash := some (CodePoint.ofChar '-')
  let shape := year.length = 4 && t'.head? = dash && t''.head? = dash && 1 ≤ month.length
    && month.length ≤ 2 && 1 ≤ day.length && day.length ≤ 2
  let y := Text.digitsValue year
  let m := Text.digitsValue month
  let d := Text.digitsValue day
  let shown (name : String) (parts : List Nat) : Text :=
    Text.ofString name ++ Text.join (Text.ofString ", ") (parts.map Text.ofNat)
      ++ Text.ofString ")"
  if !shape then none
  else if rest.isEmpty then
    if month.length = 2 && day.length = 2 then
      some ((checkDate y m d).map fun _ => .other (shown "datetime.date(" [y, m, d]))
    else none
  else
    let blank (c : CodePoint) : Bool := c = ' ' || c = '\t'
    let after : Option Text := match rest with
      | c :: more =>
        if c = 'T' || c = 't' then some more
        else if blank c then some (more.dropWhile blank)
        else none
      | [] => none
    match after.bind clock? with
    | none => none
    | some (h, mi, s) => some do
      checkDate y m d
      if 23 < h then throw (.timeOutOfRange "hour" 23)
      if 59 < mi then throw (.timeOutOfRange "minute" 59)
      if 59 < s then throw (.timeOutOfRange "second" 59)
      return .other (shown "datetime.datetime(" [y, m, d, h, mi, s])

/-- The value of a plain scalar. The sign of equality alone has none. -/
def plainValue? (t : Text) : Option (Except ScalarFault Value) :=
  match boolean? t, float? t, integer? t with
  | some b, _, _ => some (.ok (.bool b))
  | none, some x, _ => some (.ok (.float x))
  | none, none, some r => some (r.map Value.int)
  | none, none, none =>
    if t = Text.ofString "<<" || t = Text.ofString "=" then none
    else if isNull t then some (.ok .null)
    else
      match date? t with
      | some r => some r
      | none => some (.ok (.str t))

end TaskContract.Yaml
