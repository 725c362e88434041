import TaskContract.Json.Value
import TaskContract.Text.Lines

/-!
# Reading JSON

A reader for JSON text, with `NaN`, `Infinity` and `-Infinity` among the numbers. A fault carries
what is left of the text at the place it is reported at, so that its offset, line and column
follow from the lengths of the two texts.
-/

namespace TaskContract

namespace Json

inductive Fault where
  | expectingValue
  | expectingName
  | expectingColon
  | expectingComma
  | extraData
  | unterminatedString
  | invalidControl
  | invalidEscape
  | invalidUnicodeEscape
  | byteOrderMark
  deriving DecidableEq

def Fault.message : Fault → String
  | .expectingValue => "Expecting value"
  | .expectingName => "Expecting property name enclosed in double quotes"
  | .expectingColon => "Expecting ':' delimiter"
  | .expectingComma => "Expecting ',' delimiter"
  | .extraData => "Extra data"
  | .unterminatedString => "Unterminated string starting at"
  | .invalidControl => "Invalid control character at"
  | .invalidEscape => "Invalid \\escape"
  | .invalidUnicodeEscape => "Invalid \\uXXXX escape"
  | .byteOrderMark => "Unexpected UTF-8 BOM (decode using utf-8-sig)"

/-- Why a text cannot be read: it is malformed at some offset, or it holds an integer of more
digits than are read. -/
inductive ReadError where
  | malformed (fault : Fault) (text : Text) (offset : Nat)
  | tooManyDigits (count : Nat)
  deriving DecidableEq

/-- The line of an offset, from 1. -/
def lineAt (text : Text) (offset : Nat) : Nat :=
  ((text.take offset).filter fun c => c = CodePoint.ofChar '\n').length + 1

def columnAt (text : Text) (offset : Nat) : Nat :=
  ((text.take offset).reverse.takeWhile fun c => c ≠ CodePoint.ofChar '\n').length + 1

def ReadError.message : ReadError → Text
  | .malformed fault text offset =>
    Text.ofString (fault.message ++ ": line " ++ (lineAt text offset).repr ++ " column "
      ++ (columnAt text offset).repr ++ " (char " ++ offset.repr ++ ")")
  | .tooManyDigits count => digitRefusal (": value has " ++ count.repr ++ " digits")

/-- A fault together with what is left of the text where it is reported. -/
inductive Stop where
  | fault (fault : Fault) (rest : Text)
  | tooManyDigits (count : Nat)

def isSpace (c : CodePoint) : Bool :=
  c = CodePoint.ofChar ' ' || c = CodePoint.ofChar '\t' || c = CodePoint.ofChar '\n'
    || c = CodePoint.ofChar '\r'

def skipSpace (t : Text) : Text :=
  t.dropWhile isSpace

def hex4? : Text → Option (Nat × Text)
  | a :: b :: c :: d :: rest => do
    let a ← a.hexValue?
    let b ← b.hexValue?
    let c ← c.hexValue?
    let d ← d.hexValue?
    pure (((a * 16 + b) * 16 + c) * 16 + d, rest)
  | _ => none

def isHighSurrogate (n : Nat) : Bool := 0xD800 ≤ n && n < 0xDC00

def isLowSurrogate (n : Nat) : Bool := 0xDC00 ≤ n && n < 0xE000

def simpleEscape? (c : CodePoint) : Option CodePoint :=
  if c = '"' then some '"'
  else if c = '\\' then some '\\'
  else if c = '/' then some '/'
  else if c = 'b' then some '\x08'
  else if c = 'f' then some '\x0c'
  else if c = 'n' then some '\n'
  else if c = 'r' then some '\r'
  else if c = 't' then some '\t'
  else none

/-- What follows the `u` of an escape: the code point and the rest. A high surrogate and a low one
directly after it make one code point. An escape counts only with at least one more code point
behind it, which is where the string would end. -/
def readUnicodeEscape (t : Text) : Except Stop (CodePoint × Text) :=
  let invalid : Except Stop (CodePoint × Text) :=
    .error (.fault .invalidUnicodeEscape (CodePoint.ofChar 'u' :: t))
  if t.length ≤ 4 then invalid
  else
    match hex4? t with
    | none => invalid
    | some (n, rest) =>
      let alone : Except Stop (CodePoint × Text) := .ok (CodePoint.ofNat n, rest)
      match rest with
      | a :: b :: more =>
        if isHighSurrogate n && a = '\\' && b = 'u' && 4 < more.length then
          match hex4? more with
          | none => .error (.fault .invalidUnicodeEscape (b :: more))
          | some (m, rest') =>
            if isLowSurrogate m then
              .ok (CodePoint.ofNat (0x10000 + (n - 0xD800) * 0x400 + (m - 0xDC00)), rest')
            else alone
        else alone
      | _ => alone

/-- The rest of a string after its opening quote; `start` is the text from that quote on. -/
def readString (start : Text) : (fuel : Nat) → Text → Except Stop (Text × Text)
  | 0, t => .error (.fault .unterminatedString t)
  | fuel + 1, t =>
    match t with
    | [] => .error (.fault .unterminatedString start)
    | c :: rest =>
      if c = '"' then .ok ([], rest)
      else if c = '\\' then
        match rest with
        | [] => .error (.fault .unterminatedString start)
        | e :: rest' =>
          if e = 'u' then do
            let (d, rest'') ← readUnicodeEscape rest'
            let (s, after) ← readString start fuel rest''
            pure (d :: s, after)
          else
            match simpleEscape? e with
            | none => .error (.fault .invalidEscape t)
            | some d => do
              let (s, after) ← readString start fuel rest'
              pure (d :: s, after)
      else if c.val < 0x20 then .error (.fault .invalidControl t)
      else do
        let (s, after) ← readString start fuel rest
        pure (c :: s, after)

/-- The fraction after a point, if there is one: its digits and the rest. -/
def fraction? : Text → Option (Text × Text)
  | c :: rest =>
    let digits := rest.takeWhile CodePoint.isDigit
    if c = '.' && !digits.isEmpty then some (digits, rest.drop digits.length) else none
  | [] => none

def exponent? : Text → Option (Int × Text)
  | c :: rest =>
    if c = 'e' || c = 'E' then
      let (negative, unsigned) : Bool × Text := match rest with
        | s :: more =>
          if s = '-' then (true, more) else if s = '+' then (false, more) else (false, rest)
        | [] => (false, rest)
      let digits := unsigned.takeWhile CodePoint.isDigit
      if digits.isEmpty then none
      else
        let n : Int := Text.digitsValue digits
        some (if negative then -n else n, unsigned.drop digits.length)
    else none
  | [] => none

/-- The whole part of a number: a zero alone, or digits that begin with another one. -/
def whole? : Text → Option (Text × Text)
  | c :: rest =>
    if c = '0' then some ([c], rest)
    else if c.isDigit then some ((c :: rest).span CodePoint.isDigit)
    else none
  | [] => none

def readNumber (t : Text) : Except Stop (Json × Text) :=
  let (negative, unsigned) : Bool × Text := match t with
    | c :: rest => if c = '-' then (true, rest) else (false, t)
    | [] => (false, t)
  match whole? unsigned with
  | none => .error (.fault .expectingValue t)
  | some (digits, rest) =>
    let (places, rest') := (fraction? rest).getD ([], rest)
    let power := exponent? rest'
    if places.isEmpty && power.isNone then
      if digitLimit < digits.length then .error (.tooManyDigits digits.length)
      else
        let n : Int := Text.digitsValue digits
        .ok (.int (if negative then -n else n), rest)
    else
      let (e, after) := power.getD (0, rest')
      .ok (.float (Binary64.ofDecimal negative (Text.digitsValue (digits ++ places))
        (e - places.length)), after)

def words : List (Text × Json) :=
  [("null", .null), ("true", .bool true), ("false", .bool false), ("NaN", .float .nan),
   ("Infinity", .float (.infinite false)), ("-Infinity", .float (.infinite true))]

def word? (t : Text) : Option (Json × Text) :=
  words.findSome? fun (w, v) => (Text.dropFront? t w).map fun rest => (v, rest)

mutual

def readValue : (fuel : Nat) → Text → Except Stop (Json × Text)
  | 0, t => .error (.fault .expectingValue t)
  | fuel + 1, t =>
    match t with
    | [] => .error (.fault .expectingValue t)
    | c :: rest =>
      if c = '"' then do
        let (s, after) ← readString t (rest.length + 1) rest
        pure (.str s, after)
      else if c = '{' then
        match skipSpace rest with
        | [] => .error (.fault .expectingName [])
        | d :: after =>
          if d = '}' then .ok (.obj [], after) else readMembers fuel [] (d :: after)
      else if c = '[' then
        match skipSpace rest with
        | [] => .error (.fault .expectingValue [])
        | d :: after =>
          if d = ']' then .ok (.arr [], after) else readItems fuel [] (d :: after)
      else
        match word? t with
        | some r => .ok r
        | none => readNumber t

/-- The items of an array from the next one on; those before it are given in reverse. -/
def readItems : (fuel : Nat) → List Json → Text → Except Stop (Json × Text)
  | 0, _, t => .error (.fault .expectingValue t)
  | fuel + 1, items, t => do
    let (v, after) ← readValue fuel t
    match skipSpace after with
    | [] => .error (.fault .expectingComma [])
    | c :: rest =>
      if c = ']' then .ok (.arr (v :: items).reverse, rest)
      else if c = ',' then readItems fuel (v :: items) (skipSpace rest)
      else .error (.fault .expectingComma (c :: rest))

def readMembers : (fuel : Nat) → Members → Text → Except Stop (Json × Text)
  | 0, _, t => .error (.fault .expectingName t)
  | fuel + 1, members, t =>
    match t with
    | [] => .error (.fault .expectingName [])
    | q :: body =>
      if q = '"' then do
        let (name, after) ← readString t (body.length + 1) body
        match skipSpace after with
        | [] => .error (.fault .expectingColon [])
        | c :: rest =>
          if c = ':' then do
            let (v, after') ← readValue fuel (skipSpace rest)
            match skipSpace after' with
            | [] => .error (.fault .expectingComma [])
            | d :: rest' =>
              if d = '}' then .ok (.obj (Members.insert name v members), rest')
              else if d = ',' then
                readMembers fuel (Members.insert name v members) (skipSpace rest')
              else .error (.fault .expectingComma (d :: rest'))
          else .error (.fault .expectingColon (c :: rest))
      else .error (.fault .expectingName t)

end

/-- Reads a text that holds one value and nothing else but white space. -/
def readDecoded (text : Text) : Except ReadError Json :=
  let place : Stop → ReadError
    | .fault f rest => .malformed f text (text.length - rest.length)
    | .tooManyDigits n => .tooManyDigits n
  match readValue (2 * text.length + 2) (skipSpace text) with
  | .error stop => .error (place stop)
  | .ok (v, after) =>
    match skipSpace after with
    | [] => .ok v
    | c :: rest => .error (place (.fault .extraData (c :: rest)))

/-- The same, but a byte order mark in front is refused by name. -/
def read (text : Text) : Except ReadError Json :=
  if text.head? = some (CodePoint.ofNat 0xFEFF) then .error (.malformed .byteOrderMark text 0)
  else readDecoded text

end Json

end TaskContract
