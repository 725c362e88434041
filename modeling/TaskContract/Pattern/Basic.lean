import TaskContract.Text.WordCharacter
import TaskContract.Text.CodePoint

/-!
# Patterns of text

The syntax of regular expressions, as a tree. What a flag changes is settled when the tree is made:
each node says itself whether it ignores case or knows line ends.
-/

namespace TaskContract

/-- A class of code points that a letter behind a backslash names. -/
inductive Pattern.Class where
  | digit | space | word
  deriving DecidableEq

/-- A part of a set in brackets. -/
inductive Pattern.Item where
  | range (first last : CodePoint)
  | named (cls : Pattern.Class) (negated asciiOnly : Bool)
  deriving DecidableEq

/-- How a repetition tries its counts. -/
inductive Pattern.Mode where
  | greedy | lazy | possessive
  deriving DecidableEq

inductive Pattern.Place where
  | lineStart (everyLine : Bool)
  | lineEnd (everyLine : Bool)
  | textStart
  | textEnd
  | wordEdge (negated asciiOnly : Bool)
  deriving DecidableEq

inductive Pattern where
  | empty
  | literal (c : CodePoint) (ignoreCase : Bool)
  | any (lineEnds : Bool)
  | oneOf (items : List Pattern.Item) (negated ignoreCase : Bool)
  | seq (first second : Pattern)
  | alt (first second : Pattern)
  | group (index : Nat) (body : Pattern)
  | grouped (body : Pattern)
  | backReference (index : Nat) (ignoreCase : Bool)
  | repetition (min : Nat) (max : Option Nat) (mode : Pattern.Mode) (body : Pattern)
  | place (p : Pattern.Place)
  | lookahead (negated : Bool) (body : Pattern)
  | lookbehind (negated : Bool) (width : Nat) (body : Pattern)
  | atomic (body : Pattern)
  | conditional (index : Nat) (yes no : Pattern)
  deriving DecidableEq

namespace Pattern

def size : Pattern → Nat
  | seq a b => a.size + b.size + 1
  | alt a b => a.size + b.size + 1
  | group _ b => b.size + 1
  | grouped b => b.size + 1
  | repetition _ _ _ b => b.size + 1
  | lookahead _ b => b.size + 1
  | lookbehind _ _ b => b.size + 1
  | atomic b => b.size + 1
  | conditional _ a b => a.size + b.size + 1
  | _ => 1

/-- The number of code points that every match of the pattern has, if there is one such number. The
widths of the groups met before are given, for references back to them. -/
def width? (groups : List (Nat × Nat)) : Pattern → Option Nat
  | empty => some 0
  | literal _ _ => some 1
  | any _ => some 1
  | oneOf _ _ _ => some 1
  | seq a b => do return (← a.width? groups) + (← b.width? groups)
  | alt a b => do
    let m ← a.width? groups
    let n ← b.width? groups
    if m = n then some m else none
  | group _ b => b.width? groups
  | grouped b => b.width? groups
  | backReference i _ => groups.lookup i
  | repetition min max _ b => do
    let n ← b.width? groups
    if n = 0 then some 0 else if max = some min then some (min * n) else none
  | place _ => some 0
  | lookahead _ _ => some 0
  | lookbehind _ _ _ => some 0
  | atomic b => b.width? groups
  | conditional _ a b => do
    let m ← a.width? groups
    let n ← b.width? groups
    if m = n then some m else none

def Class.holds (cls : Class) (asciiOnly : Bool) (c : CodePoint) : Bool :=
  match cls with
  | .digit => if asciiOnly then c.isDigit else c.isDecimalDigit
  | .space => if asciiOnly then c.val = 0x20 || (9 ≤ c.val && c.val ≤ 13) else c.isBlank
  | .word =>
    c = CodePoint.ofChar '_'
      || (if asciiOnly then c.isAsciiLetter || c.isDigit else c.isAlphanumeric)

def Item.holds (ignoreCase : Bool) (c : CodePoint) : Item → Bool
  | .range first last =>
    let within (d : CodePoint) : Bool := first.val ≤ d.val && d.val ≤ last.val
    let upper := if c.isBetween 'a' 'z' then CodePoint.ofNat (c.val - 32) else c
    within c || (ignoreCase && (within c.asciiLower || within upper))
  | .named cls negated asciiOnly => cls.holds asciiOnly c != negated

end Pattern

end TaskContract
