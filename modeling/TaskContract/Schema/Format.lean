import TaskContract.Pattern.Match

/-!
# Formats of texts

The formats that are checked: mail addresses, internet addresses, dates and patterns. Every other
format is fulfilled by every text.
-/

namespace TaskContract.Schema

/-- A number from 0 to 255 in at most three digits, without leading zeros. -/
def isOctet (t : Text) : Bool :=
  !t.isEmpty && t.length ≤ 3 && t.all CodePoint.isDigit
    && (t.length = 1 || t.head? ≠ some (CodePoint.ofChar '0')) && Text.digitsValue t ≤ 255

def isIpv4 (t : Text) : Bool :=
  let parts := Text.splitOn '.' t
  parts.length = 4 && parts.all isOctet

def isHextet (t : Text) : Bool :=
  !t.isEmpty && t.length ≤ 4 && t.all CodePoint.isHexDigit

/-- An address of eight groups, of which one run of zero groups may be left out and the last two
may be in the dotted form. -/
def isIpv6 (t : Text) : Bool :=
  let parts := Text.splitOn ':' t
  let zero := Text.ofString "0"
  let last := parts.getLast?.getD []
  let dotted := last.contains (CodePoint.ofChar '.')
  let parts := if dotted then parts.dropLast ++ [zero, zero] else parts
  if (dotted && !isIpv4 last) || (Text.splitOn ':' t).length < 3 || 9 < parts.length then false
  else
    let inner := (parts.drop 1).dropLast
    match inner.findIdx? List.isEmpty with
    | some i =>
      let front := parts.take (i + 1)
      let back := parts.drop (i + 2)
      let drop (ps : List Text) (p : Option Text) : List Text :=
        if p = some [] then ps.filter (!·.isEmpty) else ps
      let front' := drop front front.head?
      let back' := drop back back.getLast?
      (inner.filter List.isEmpty).length = 1
        && (front.head? ≠ some [] || front'.isEmpty) && (back.getLast? ≠ some [] || back'.isEmpty)
        && (front' ++ back').length < 8 && (front' ++ back').all isHextet
    | none => parts.length = 8 && parts.all isHextet

def isLeapYear (year : Nat) : Bool :=
  (year % 4 = 0 && year % 100 ≠ 0) || year % 400 = 0

def daysInMonth (year month : Nat) : Nat :=
  if month = 2 then (if isLeapYear year then 29 else 28)
  else if month = 4 || month = 6 || month = 9 || month = 11 then 30
  else 31

def isDate (t : Text) : Bool :=
  let dash := some (CodePoint.ofChar '-')
  let year := t.take 4
  let month := (t.drop 5).take 2
  let day := t.drop 8
  t.length = 10 && t[4]? = dash && t[7]? = dash && (year ++ month ++ day).all CodePoint.isDigit
    && 1 ≤ Text.digitsValue year && 1 ≤ Text.digitsValue month && Text.digitsValue month ≤ 12
    && 1 ≤ Text.digitsValue day
    && Text.digitsValue day ≤ daysInMonth (Text.digitsValue year) (Text.digitsValue month)

def hasFormat (format t : Text) : Bool :=
  if format = "email" || format = "idn-email" then t.contains (CodePoint.ofChar '@')
  else if format = "ipv4" then isIpv4 t
  else if format = "ipv6" then isIpv6 t
  else if format = "date" then isDate t
  else if format = "regex" then (Pattern.read? t).isSome
  else true

end TaskContract.Schema
