/-!
# Text as code points

A text is a sequence of code points, surrogates included: escape sequences may name one half of
a surrogate pair, and such a half is kept as it is. Texts are ordered code point by code point.
-/

namespace TaskContract

/-- A code point: a scalar value or a surrogate. -/
structure CodePoint where
  val : Nat
  isLt : val < 0x110000
  deriving DecidableEq

namespace CodePoint

def ofChar (c : Char) : CodePoint where
  val := c.toNat
  isLt := by
    have h := c.valid
    simp only [Char.toNat, UInt32.isValidChar, Nat.isValidChar] at *
    omega

instance : Coe Char CodePoint := ⟨ofChar⟩

instance : Inhabited CodePoint := ⟨ofChar ' '⟩

def ofNat? (n : Nat) : Option CodePoint :=
  if h : n < 0x110000 then some ⟨n, h⟩ else none

/-- The code point of a number, with U+FFFD in place of a number that is none. -/
def ofNat (n : Nat) : CodePoint :=
  if h : n < 0x110000 then ⟨n, h⟩ else ofChar '\uFFFD'

def isSurrogate (c : CodePoint) : Bool :=
  0xD800 ≤ c.val && c.val ≤ 0xDFFF

/-- Is the code point one of the surrogates that stand for single bytes in file names? -/
def isRawByte (c : CodePoint) : Bool :=
  0xDC80 ≤ c.val && c.val ≤ 0xDCFF

def toChar? (c : CodePoint) : Option Char :=
  if h : c.val.isValidChar then some (Char.ofNatAux c.val h) else none

def isBetween (c : CodePoint) (lo hi : Char) : Bool :=
  lo.toNat ≤ c.val && c.val ≤ hi.toNat

def isDigit (c : CodePoint) : Bool :=
  c.isBetween '0' '9'

def isAsciiLetter (c : CodePoint) : Bool :=
  c.isBetween 'a' 'z' || c.isBetween 'A' 'Z'

def hexValue? (c : CodePoint) : Option Nat :=
  if c.isDigit then some (c.val - '0'.toNat)
  else if c.isBetween 'a' 'f' then some (c.val - 'a'.toNat + 10)
  else if c.isBetween 'A' 'F' then some (c.val - 'A'.toNat + 10)
  else none

def isHexDigit (c : CodePoint) : Bool :=
  c.hexValue?.isSome

def asciiLower (c : CodePoint) : CodePoint :=
  if c.isBetween 'A' 'Z' then ofNat (c.val + 32) else c

end CodePoint

abbrev Text := List CodePoint

namespace Text

def ofString (s : String) : Text :=
  s.toList.map CodePoint.ofChar

instance : Coe String Text := ⟨ofString⟩

def toChars? (t : Text) : Option (List Char) :=
  t.mapM CodePoint.toChar?

def ofChars (cs : List Char) : Text :=
  cs.map CodePoint.ofChar

/-- Can the text be written in UTF-8? It can iff it holds no surrogate. -/
def isScalar (t : Text) : Bool :=
  t.all fun c => !c.isSurrogate

def ofNat (n : Nat) : Text :=
  ofString n.repr

def ofInt (n : Int) : Text :=
  if n < 0 then ofString "-" ++ ofNat n.natAbs else ofNat n.natAbs

/-- The order by code points; a proper initial part comes first. -/
def le : Text → Text → Bool
  | [], _ => true
  | _ :: _, [] => false
  | a :: s, b :: t => if a.val < b.val then true else if b.val < a.val then false else le s t

def join (separator : Text) : List Text → Text
  | [] => []
  | [t] => t
  | t :: rest => t ++ separator ++ join separator rest

def startsWith (t front : Text) : Bool :=
  front.isPrefixOf t

def endsWith (t back : Text) : Bool :=
  back.isSuffixOf t

def dropFront? : Text → Text → Option Text
  | t, [] => some t
  | [], _ :: _ => none
  | c :: t, d :: front => if c = d then dropFront? t front else none

def find? (needle : Text) (t : Text) : Option Nat :=
  go 0 t
where
  go (offset : Nat) : Text → Option Nat
    | [] => if needle = [] then some offset else none
    | c :: rest =>
      if needle.isPrefixOf (c :: rest) then some offset else go (offset + 1) rest

def includes (needle : Text) (t : Text) : Bool :=
  (find? needle t).isSome

def lastIndexOf? (c : CodePoint) (t : Text) : Option Nat :=
  (t.reverse.findIdx? (· = c)).map fun i => t.length - 1 - i

def splitOn (c : CodePoint) : Text → List Text
  | [] => [[]]
  | d :: t =>
    if d = c then [] :: splitOn c t
    else
      match splitOn c t with
      | [] => [[d]]
      | piece :: pieces => (d :: piece) :: pieces

def digitsValue (t : Text) : Nat :=
  t.foldl (fun n c => 10 * n + (c.val - '0'.toNat)) 0

def asciiLower (t : Text) : Text :=
  t.map CodePoint.asciiLower

/-- The digits of a number in base sixteen, small letters, at least the given count. -/
def hex (width n : Nat) : Text :=
  let digits := ofChars (Nat.toDigits 16 n)
  List.replicate (width - digits.length) (CodePoint.ofChar '0') ++ digits

end Text

namespace CodePoint

/-- White space: the ASCII blanks and separators, NEL, and the Unicode space separators. -/
def isBlank (c : CodePoint) : Bool :=
  (9 ≤ c.val && c.val ≤ 13) || (0x1C ≤ c.val && c.val ≤ 0x20) || c.val = 0x85 || c.val = 0xA0
    || c.val = 0x1680 || (0x2000 ≤ c.val && c.val ≤ 0x200A) || c.val = 0x2028 || c.val = 0x2029
    || c.val = 0x202F || c.val = 0x205F || c.val = 0x3000

end CodePoint

namespace Text

def trimStart (t : Text) : Text :=
  t.dropWhile CodePoint.isBlank

def trimEnd (t : Text) : Text :=
  t.reverse.dropWhile CodePoint.isBlank |>.reverse

def trim (t : Text) : Text :=
  trimEnd (trimStart t)

def isBlank (t : Text) : Bool :=
  t.all CodePoint.isBlank

end Text

end TaskContract
