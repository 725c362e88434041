import TaskContract.Pattern.Parser

/-!
# Searching with a pattern

Matching goes back to untried choices: a node is matched against a place with what has to match
behind it. The depth of the search is bounded by the pattern's size and the length of the text.
-/

namespace TaskContract.Pattern

/-- A place in a text, with what the groups hold there. -/
structure Spot where
  /-- What stands before, the nearest first. -/
  before : Text
  after : Text
  groups : List (Nat × Text) := []

def wordAt (asciiOnly : Bool) (side : Text) : Bool :=
  side.head?.any (Class.word.holds asciiOnly)

def Place.holds (p : Place) (s : Spot) : Bool :=
  let newline := CodePoint.ofChar '\n'
  match p with
  | .lineStart everyLine => s.before.isEmpty || (everyLine && s.before.head? = some newline)
  | .lineEnd everyLine =>
    s.after.isEmpty || s.after = [newline] || (everyLine && s.after.head? = some newline)
  | .textStart => s.before.isEmpty
  | .textEnd => s.after.isEmpty
  | .wordEdge negated asciiOnly =>
    !(s.before.isEmpty && s.after.isEmpty)
      && (wordAt asciiOnly s.before != wordAt asciiOnly s.after) != negated

def sameLetter (ignoreCase : Bool) (a b : CodePoint) : Bool :=
  a = b || (ignoreCase && a.asciiLower = b.asciiLower)

def Spot.step? (s : Spot) (test : CodePoint → Bool) : Option Spot :=
  match s.after with
  | c :: rest => if test c then some { s with before := c :: s.before, after := rest } else none
  | [] => none

def Spot.skip? (ignoreCase : Bool) : Text → Spot → Option Spot
  | [], s => some s
  | c :: rest, s => (s.step? (sameLetter ignoreCase c)).bind (Spot.skip? ignoreCase rest)

def Spot.back? : Nat → Spot → Option Spot
  | 0, s => some s
  | n + 1, s =>
    match s.before with
    | c :: rest => Spot.back? n { s with before := rest, after := c :: s.after }
    | [] => none

/-- Matches a pattern at a spot, then what has to match behind it, and gives the first spot at
which both succeed. -/
def matchThen : (fuel : Nat) → Pattern → Spot → (Spot → Option Spot) → Option Spot
  | 0, _, _, _ => none
  | fuel + 1, p, s, k =>
    match p with
    | .empty => k s
    | .literal c ignoreCase => (s.step? (sameLetter ignoreCase c)).bind k
    | .any lineEnds => (s.step? fun c => lineEnds || c ≠ CodePoint.ofChar '\n').bind k
    | .oneOf items negated ignoreCase =>
      (s.step? fun c => items.any (Item.holds ignoreCase c) != negated).bind k
    | .seq a b => matchThen fuel a s fun s' => matchThen fuel b s' k
    | .alt a b => matchThen fuel a s k <|> matchThen fuel b s k
    | .group index b =>
      matchThen fuel b s fun s' =>
        let held := s.after.take (s.after.length - s'.after.length)
        k { s' with groups := (index, held) :: s'.groups }
    | .grouped b => matchThen fuel b s k
    | .backReference index ignoreCase =>
      match s.groups.lookup index with
      | some held => (s.skip? ignoreCase held).bind k
      | none => none
    | .repetition min max mode b =>
      match mode with
      | .possessive => (matchThen fuel (.repetition min max .greedy b) s some).bind k
      | _ =>
        let more : Option Spot :=
          if max = some 0 then none
          else matchThen fuel b s fun s' =>
            if s'.after.length = s.after.length && min = 0 then none
            else matchThen fuel (.repetition (min - 1) (max.map (· - 1)) mode b) s' k
        if 0 < min then more
        else if mode = .lazy then k s <|> more
        else more <|> k s
    | .place p => if p.holds s then k s else none
    | .lookahead negated b =>
      match matchThen fuel b s some, negated with
      | some s', false => k { s with groups := s'.groups }
      | none, true => k s
      | _, _ => none
    | .lookbehind negated width b =>
      let found := (s.back? width).bind fun s₀ =>
        matchThen fuel b s₀ fun s' =>
          if s'.after.length = s.after.length then some s' else none
      match found, negated with
      | some s', false => k { s with groups := s'.groups }
      | none, true => k s
      | _, _ => none
    | .atomic b => (matchThen fuel b s some).bind k
    | .conditional index yes no =>
      matchThen fuel (if (s.groups.lookup index).isSome then yes else no) s k

def searchFrom (fuel : Nat) (p : Pattern) (before : Text) : Text → Bool
  | [] => (matchThen fuel p { before, after := [] } some).isSome
  | c :: rest =>
    (matchThen fuel p { before, after := c :: rest } some).isSome
      || searchFrom fuel p (c :: before) rest

def search (p : Pattern) (t : Text) : Bool :=
  searchFrom ((p.size + 2) * (t.length + 2) * 2) p [] t

end TaskContract.Pattern
