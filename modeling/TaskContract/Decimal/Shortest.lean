import TaskContract.Decimal.Binary64
import TaskContract.Text.CodePoint

/-!
# The shortest decimal that reads back

A finite number is written with the fewest decimal digits that read back to it, the nearest ones
among those. Candidates of each length are the two neighbours of the value on the decimal grid,
compared exactly with the interval of reals that round to the number.
-/

namespace TaskContract

namespace Binary64

/-- The interval of reals that round to a number, over a common denominator. -/
structure Rounding where
  low : Nat
  value : Nat
  high : Nat
  den : Nat
  /-- Do the ends themselves round to the number? They do iff its significand is even. -/
  closed : Bool

def rounding (m k : Nat) : Rounding where
  low := (if m = twoTo 52 ∧ 0 < k then 4 * m - 1 else 4 * m - 2) * twoTo k
  value := 4 * m * twoTo k
  high := (4 * m + 2) * twoTo k
  den := twoTo 1076
  closed := m % 2 = 0

def Rounding.holds (r : Rounding) (digits : Nat) (exponent : Int) : Bool :=
  let up := tenTo exponent.toNat
  let down := tenTo (-exponent).toNat
  let x := digits * up * r.den
  if r.closed then r.low * down ≤ x && x ≤ r.high * down
  else r.low * down < x && x < r.high * down

/-- The power of ten of the leading digit of `num / den`, searched downwards from a bound. -/
def leadingPower (num den : Nat) : (fuel : Nat) → Int → Int
  | 0, e => e
  | fuel + 1, e =>
    if den * tenTo e.toNat ≤ num * tenTo (-e).toNat then e else leadingPower num den fuel (e - 1)

def powerBound (num den : Nat) : Int :=
  let bits : Int := (num.log2 : Int) - den.log2
  if 0 ≤ bits then bits * 30103 / 100000 + 1 else bits * 30102 / 100000 + 1

/-- The candidate of a given number of digits: the nearer of the two neighbours of the value that
lie in the interval. -/
def Rounding.candidate? (r : Rounding) (exponent : Int) : Option Nat :=
  let up := tenTo exponent.toNat
  let down := tenTo (-exponent).toNat
  let below := r.value * down / (r.den * up)
  let above := below + 1
  match r.holds below exponent, r.holds above exponent with
  | true, true =>
    let twice := 2 * r.value * down
    let middle := (below + above) * r.den * up
    if twice < middle then some below
    else if middle < twice then some above
    else if below % 2 = 0 then some below else some above
  | true, false => some below
  | false, true => some above
  | false, false => none

/-- The first length with a candidate, from `count` digits on. -/
def shortestFrom (r : Rounding) (leading : Int) : (fuel count : Nat) → Nat × Int
  | 0, count => (0, leading - count)
  | fuel + 1, count =>
    let exponent := leading - (count : Int) + 1
    match r.candidate? exponent with
    | some digits => (digits, exponent)
    | none => shortestFrom r leading fuel (count + 1)

/-- Removes the factors of ten from a decimal. -/
def stripZeros : (fuel : Nat) → Nat → Int → Nat × Int
  | 0, digits, exponent => (digits, exponent)
  | fuel + 1, digits, exponent =>
    if digits ≠ 0 ∧ digits % 10 = 0 then stripZeros fuel (digits / 10) (exponent + 1)
    else (digits, exponent)

/-- The shortest decimal `digits * 10 ^ exponent` of a positive finite number. -/
def shortest (m k : Nat) : Nat × Int :=
  let r := rounding m k
  let (digits, exponent) :=
    shortestFrom r (leadingPower r.value r.den 4 (powerBound r.value r.den)) 17 1
  stripZeros 20 digits exponent

/-- The exponent of a decimal in the scientific form: a sign and at least two digits. -/
def exponentText (e : Int) : Text :=
  let digits := Text.ofNat e.natAbs
  (if e < 0 then Text.ofString "e-" else Text.ofString "e+")
    ++ (if digits.length < 2 then Text.ofString "0" ++ digits else digits)

def zeros (count : Nat) : Text :=
  List.replicate count (CodePoint.ofChar '0')

/-- The text of a decimal: positional when the leading digit stands at a power from -4 to 15,
with a point and at least one decimal place; scientific otherwise. -/
def decimalText (digits : Nat) (exponent : Int) : Text :=
  let ds := Text.ofNat digits
  let leading := exponent + ds.length - 1
  if -4 ≤ leading ∧ leading < 16 then
    if 0 ≤ exponent then ds ++ zeros exponent.toNat ++ Text.ofString ".0"
    else if 0 ≤ leading then
      let whole := leading.toNat + 1
      ds.take whole ++ Text.ofString "." ++ ds.drop whole
    else Text.ofString "0." ++ zeros (-leading - 1).toNat ++ ds
  else
    match ds with
    | d :: [] => d :: exponentText leading
    | d :: rest => d :: (Text.ofString "." ++ rest ++ exponentText leading)
    | [] => exponentText leading

/-- The words for the numbers that have no digits. -/
structure SpecialNames where
  nan : String
  infinity : String

def text (names : SpecialNames) : Binary64 → Text
  | .nan => Text.ofString names.nan
  | .infinite negative => Text.ofString ((if negative then "-" else "") ++ names.infinity)
  | .finite negative m k =>
    let sign := Text.ofString (if negative then "-" else "")
    if m = 0 then sign ++ Text.ofString "0.0"
    else
      let (digits, exponent) := shortest m k
      sign ++ decimalText digits exponent

def displayNames : SpecialNames := { nan := "nan", infinity := "inf" }

def jsonNames : SpecialNames := { nan := "NaN", infinity := "Infinity" }

end Binary64

end TaskContract
