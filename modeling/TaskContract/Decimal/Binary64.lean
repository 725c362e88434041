/-!
# Binary floating-point numbers of 64 bits

A finite number is a sign, a significand below 2^53 and a count of doublings: its value is
`± significand * 2 ^ doublings / 2 ^ 1074`. All arithmetic is exact on the values and then rounded
once, to the nearest number and on a tie to the even significand, so that every operation is a
plain function on natural numbers.
-/

namespace TaskContract

def twoTo (k : Nat) : Nat :=
  Nat.pow 2 k

def tenTo (k : Nat) : Nat :=
  Nat.pow 10 k

inductive Binary64 where
  | nan
  | infinite (negative : Bool)
  | finite (negative : Bool) (significand doublings : Nat)
  deriving DecidableEq, Inhabited

namespace Binary64

/-- The quotient of two naturals rounded to the nearest, a tie to the even one. -/
def roundDiv (num den : Nat) : Nat :=
  let q := num / den
  let r := num % den
  if 2 * r < den then q
  else if den < 2 * r then q + 1
  else if q % 2 = 0 then q else q + 1

/-- The significand of `num / den` at the given number of doublings. -/
def significandAt (num den doublings : Nat) : Nat :=
  roundDiv (num * twoTo 1074) (den * twoTo doublings)

/-- Where the search for the number of doublings may start: one that is never too large. -/
def leastDoublings (num den : Nat) : Nat :=
  num.log2 + 1074 - den.log2 - 54

/-- The nearest number to `± num / den`; beyond the largest finite one it is infinite. -/
def ofRatio (negative : Bool) (num den : Nat) : Binary64 :=
  let start := leastDoublings num den
  let fits := fun k => significandAt num den k < twoTo 53
  let k := if fits start then start else if fits (start + 1) then start + 1
    else if fits (start + 2) then start + 2 else start + 3
  if 2045 < k then .infinite negative else .finite negative (significandAt num den k) k

def zero : Binary64 := .finite false 0 0

/-- The nearest number to `± digits * 10 ^ exponent`. Exponents far outside of the format are
answered without computing the power. -/
def ofDecimal (negative : Bool) (digits : Nat) (exponent : Int) : Binary64 :=
  if digits = 0 then .finite negative 0 0
  else
    let magnitude : Int := exponent + (digits.log2 / 3 : Nat)
    if 400 < exponent then .infinite negative
    else if magnitude < -400 then .finite negative 0 0
    else if 0 ≤ exponent then ofRatio negative (digits * tenTo exponent.toNat) 1
    else ofRatio negative digits (tenTo (-exponent).toNat)

def finite? : Binary64 → Option Binary64
  | .finite negative m k => some (.finite negative m k)
  | _ => none

def ofInt? (n : Int) : Option Binary64 :=
  (ofRatio (n < 0) n.natAbs 1).finite?

/-- The value of a finite number in units of `2 ^ -1074`. -/
def units (negative : Bool) (m k : Nat) : Int :=
  if negative then -((m * twoTo k : Nat) : Int) else ((m * twoTo k : Nat) : Int)

/-- The order of a number and an integer; none for a NaN. -/
def compareInt? (x : Binary64) (n : Int) : Option Ordering :=
  match x with
  | .nan => none
  | .infinite negative => some (if negative then .lt else .gt)
  | .finite negative m k => some (compare (units negative m k) (n * twoTo 1074))

def compare? (x y : Binary64) : Option Ordering :=
  match x, y with
  | .nan, _ => none
  | _, .nan => none
  | .infinite a, .infinite b => some (if a = b then .eq else if a then .lt else .gt)
  | .infinite a, _ => some (if a then .lt else .gt)
  | _, .infinite b => some (if b then .gt else .lt)
  | .finite a m k, .finite b n l => some (compare (units a m k) (units b n l))

def lt (x y : Binary64) : Bool := compare? x y = some .lt

def le (x y : Binary64) : Bool := compare? x y = some .lt || compare? x y = some .eq

def truncate? : Binary64 → Option Int
  | .finite negative m k =>
    let whole : Nat := m * twoTo k / twoTo 1074
    some (if negative then -(whole : Int) else whole)
  | _ => none

def isIntegral : Binary64 → Bool
  | .finite _ m k => m * twoTo k % twoTo 1074 = 0
  | _ => false

/-- The quotient by a number other than zero, rounded. -/
def div (x y : Binary64) : Binary64 :=
  match x, y with
  | .nan, _ => .nan
  | _, .nan => .nan
  | .infinite _, .infinite _ => .nan
  | .infinite a, .finite b _ _ => .infinite (a != b)
  | .finite a _ _, .infinite b => .finite (a != b) 0 0
  | .finite a m k, .finite b n l =>
    if m = 0 then .finite (a != b) 0 0 else ofRatio (a != b) (m * twoTo k) (n * twoTo l)

def ofUnits (n : Int) : Binary64 :=
  if n = 0 then zero else ofRatio (n < 0) n.natAbs (twoTo 1074)

/-- The product with a positive natural, rounded. Infinity and NaN stay as they are. -/
def times (x : Binary64) (n : Nat) : Binary64 :=
  match x with
  | .finite negative m k => ofUnits (units negative m k * n)
  | _ => x

/-- The sum of two finite numbers, rounded. A number that is not finite is the sum itself. -/
def plus (x y : Binary64) : Binary64 :=
  match x, y with
  | .finite a m k, .finite b n l => ofUnits (units a m k + units b n l)
  | .finite _ _ _, y => y
  | x, _ => x

def negate : Binary64 → Binary64
  | .nan => .nan
  | .infinite negative => .infinite !negative
  | .finite negative m k => .finite (!negative) m k

def scale (x : Binary64) (power : Nat) : Binary64 :=
  match x with
  | .finite negative m k =>
    if m = 0 then x else ofRatio negative (m * twoTo k * twoTo power) (twoTo 1074)
  | _ => x

end Binary64

end TaskContract
