import TaskContract.Pattern.Basic

/-!
# Reading patterns

The reader accepts exactly the well-formed patterns: quantifiers have something to repeat, groups
are closed and known where they are referred to, and what looks behind has a fixed width.
-/

namespace TaskContract.Pattern

structure Flags where
  ignoreCase : Bool := false
  everyLine : Bool := false
  lineEnds : Bool := false
  verbose : Bool := false
  asciiOnly : Bool := false

/-- What is left of a pattern, and the groups met so far. -/
structure State where
  rest : Text
  atStart : Bool := true
  groups : Nat := 1
  opened : List Nat := []
  names : List (Text × Nat) := []
  references : List Nat := []
  widths : List (Nat × Nat) := []
  flags : Flags := {}

abbrev Reader (α : Type) := StateT State Option α

namespace Reader

def peek : Reader (Option CodePoint) := do
  return (← get).rest.head?

def drop (n : Nat) : Reader Unit :=
  modify fun s => { s with rest := s.rest.drop n }

def take : Reader CodePoint := do
  match (← get).rest with
  | c :: rest => do
    modify fun s => { s with rest }
    return c
  | [] => failure

def takeIf (ch : Char) : Reader Bool := do
  if (← peek) = some (CodePoint.ofChar ch) then do
    drop 1
    return true
  else return false

def require (ch : Char) : Reader Unit := do
  if !(← takeIf ch) then failure

/-- The text up to the given character, which is taken too. -/
def upTo (ch : Char) : Reader Text := do
  let s ← get
  let front := s.rest.takeWhile fun c => c ≠ CodePoint.ofChar ch
  if front.length = s.rest.length then failure
  set { s with rest := s.rest.drop (front.length + 1) }
  return front

/-- Exactly `n` hexadecimal digits. -/
def hex (n : Nat) : Reader CodePoint := do
  let s ← get
  let digits := s.rest.take n
  if digits.length ≠ n || !digits.all CodePoint.isHexDigit then failure
  set { s with rest := s.rest.drop n }
  match CodePoint.ofNat? (digits.foldl (fun v c => 16 * v + c.hexValue?.getD 0) 0) with
  | some c => return c
  | none => failure

/-- At most `n` more octal digits behind the given ones. -/
def octal (front : Text) (n : Nat) : Reader CodePoint := do
  let s ← get
  let more := (s.rest.take n).takeWhile fun c => c.isBetween '0' '7'
  set { s with rest := s.rest.drop more.length }
  let value := (front ++ more).foldl (fun v c => 8 * v + (c.val - '0'.toNat)) 0
  if 0o377 < value then failure
  return CodePoint.ofNat value

end Reader

open Reader

def controlLetter? (c : CodePoint) : Option CodePoint :=
  if c = 'a' then some '\x07'
  else if c = 'f' then some '\x0c'
  else if c = 'n' then some '\n'
  else if c = 'r' then some '\r'
  else if c = 't' then some '\t'
  else if c = 'v' then some '\x0b'
  else if c = '\\' then some '\\'
  else none

def classLetter? (c : CodePoint) : Option (Class × Bool) :=
  if c = 'd' then some (.digit, false)
  else if c = 'D' then some (.digit, true)
  else if c = 's' then some (.space, false)
  else if c = 'S' then some (.space, true)
  else if c = 'w' then some (.word, false)
  else if c = 'W' then some (.word, true)
  else none

def numbered? (c : CodePoint) : Option (Reader CodePoint) :=
  if c = 'x' then some (hex 2)
  else if c = 'u' then some (hex 4)
  else if c = 'U' then some (hex 8)
  else none

def classEscape (flags : Flags) : Reader Item := do
  let c ← take
  let one (d : CodePoint) : Item := .range d d
  if c = 'b' then return one '\x08'
  match controlLetter? c, classLetter? c, numbered? c with
  | some d, _, _ => return one d
  | _, some (cls, negated), _ => return .named cls negated flags.asciiOnly
  | _, _, some read => return one (← read)
  | _, _, _ =>
    if c.isBetween '0' '7' then return one (← octal [c] 2)
    else if c.isDigit || c.isAsciiLetter then failure
    else return one c

def setItems (flags : Flags) : (fuel : Nat) → List Item → Reader (List Item)
  | 0, _ => failure
  | fuel + 1, items => do
    let c ← take
    if c = ']' && !items.isEmpty then return items.reverse
    let first ← if c = '\\' then classEscape flags else pure (.range c c)
    if (← takeIf '-') then do
      let d ← take
      if d = ']' then return (Item.range '-' '-' :: first :: items).reverse
      let last ← if d = '\\' then classEscape flags else pure (.range d d)
      match first, last with
      | .range a a', .range b b' =>
        if a = a' && b = b' && a.val ≤ b.val then setItems flags fuel (.range a b :: items)
        else failure
      | _, _ => failure
    else setItems flags fuel (first :: items)

/-- A set, behind its opening bracket. -/
def bracketed (flags : Flags) : Reader Pattern := do
  let negated ← takeIf '^'
  let items ← setItems flags ((← get).rest.length + 1) []
  return .oneOf items negated flags.ignoreCase

/-- A reference back to a group, which has to be closed. -/
def reference (flags : Flags) (index : Nat) : Reader Pattern := do
  let s ← get
  if s.groups ≤ index || s.opened.contains index then failure
  return .backReference index flags.ignoreCase

def escape (flags : Flags) : Reader Pattern := do
  let c ← take
  let one (d : CodePoint) : Pattern := .literal d flags.ignoreCase
  if c = 'A' then return .place .textStart
  else if c = 'Z' then return .place .textEnd
  else if c = 'b' then return .place (.wordEdge false flags.asciiOnly)
  else if c = 'B' then return .place (.wordEdge true flags.asciiOnly)
  else
    match controlLetter? c, classLetter? c, numbered? c with
    | some d, _, _ => return one d
    | _, some (cls, negated), _ =>
      return .oneOf [.named cls negated flags.asciiOnly] false false
    | _, _, some read => return one (← read)
    | _, _, _ =>
      if c = '0' then return one (← octal [c] 2)
      else if c.isDigit then do
        let isOctal (d : CodePoint) : Bool := d.isBetween '0' '7'
        match (← get).rest with
        | d :: e :: _ =>
          if isOctal c && isOctal d && isOctal e then return one (← octal [c] 2)
          else if d.isDigit then do
            drop 1
            reference flags (Text.digitsValue [c, d])
          else reference flags (Text.digitsValue [c])
        | [d] =>
          if d.isDigit then do
            drop 1
            reference flags (Text.digitsValue [c, d])
          else reference flags (Text.digitsValue [c])
        | [] => reference flags (Text.digitsValue [c])
      else if c.isAsciiLetter then failure
      else return one c

def isGroupName : Text → Bool
  | [] => false
  | c :: rest =>
    let starts (d : CodePoint) : Bool := d = '_' || (d.isAlphanumeric && !d.isDecimalDigit)
    starts c && rest.all fun d => d = '_' || d.isAlphanumeric

/-- The counts of a repetition in braces, behind the opening one; `none` if it is not one, and then
nothing is taken. -/
def counts : Reader (Option (Nat × Option Nat)) := do
  let s ← get
  let low := s.rest.takeWhile CodePoint.isDigit
  let behind := s.rest.drop low.length
  let (high, closing, single) : Text × Text × Bool := match behind with
    | c :: rest =>
      if c = ',' then
        let high := rest.takeWhile CodePoint.isDigit
        (high, rest.drop high.length, false)
      else (low, behind, true)
    | [] => (low, behind, true)
  match closing with
  | c :: rest =>
    if c = '}' && !(single && low.isEmpty) then do
      let min := Text.digitsValue low
      let max := if high.isEmpty then none else some (Text.digitsValue high)
      if max.any fun m => m < min then failure
      if 4294967295 ≤ min || max.any fun m => 4294967295 ≤ m then failure
      set { s with rest }
      return some (min, max)
    else return none
  | [] => return none

def isRepeatable : Pattern → Bool
  | .place _ => false
  | .repetition _ _ _ _ => false
  | .empty => false
  | _ => true

/-- The letters of flags, as they change the flags in force. -/
def flagLetter? (on : Bool) (c : CodePoint) (f : Flags) : Option Flags :=
  if c = 'i' then some { f with ignoreCase := on }
  else if c = 'm' then some { f with everyLine := on }
  else if c = 's' then some { f with lineEnds := on }
  else if c = 'x' then some { f with verbose := on }
  else if c = 'a' && on then some { f with asciiOnly := true }
  else if c = 'u' && on then some { f with asciiOnly := false }
  else none

/-- Blanks and comments of a pattern that may hold them. -/
def skipVerbose : (fuel : Nat) → Text → Text
  | 0, t => t
  | fuel + 1, t =>
    match t with
    | c :: rest =>
      if c.val = 0x20 || (9 ≤ c.val && c.val ≤ 13) then skipVerbose fuel rest
      else if c = '#' then
        skipVerbose fuel ((rest.dropWhile fun d => d ≠ CodePoint.ofChar '\n').drop 1)
      else t
    | [] => []

def ofList : List Pattern → Pattern
  | [] => .empty
  | [p] => p
  | p :: rest => .seq p (ofList rest)

inductive Opening where
  | capture (name : Option Text)
  | plain (flags : Flags)
  | look (behind negated : Bool)
  | atomic
  | condition (index : Nat)
  | whole (p : Pattern)
  | nothing

def opening (flags : Flags) (first : Bool) : Reader Opening := do
  if !(← takeIf '?') then return .capture none
  let c ← take
  if c = 'P' then do
    if (← takeIf '<') then do
      let name ← upTo '>'
      if !isGroupName name || ((← get).names.lookup name).isSome then failure
      return .capture (some name)
    else do
      require '='
      let name ← upTo ')'
      match (← get).names.lookup name with
      | some index => return .whole (← reference flags index)
      | none => failure
  else if c = ':' then return .plain flags
  else if c = '#' then do
    let _ ← upTo ')'
    return .nothing
  else if c = '=' then return .look false false
  else if c = '!' then return .look false true
  else if c = '<' then do
    let d ← take
    if d = '=' then return .look true false
    else if d = '!' then return .look true true
    else failure
  else if c = '>' then return .atomic
  else if c = '(' then do
    let name ← upTo ')'
    if !name.isEmpty && name.all CodePoint.isDigit then do
      let index := Text.digitsValue name
      if index = 0 then failure
      modify fun s => { s with references := index :: s.references }
      return .condition index
    else
      match (← get).names.lookup name with
      | some index => return .condition index
      | none => failure
  else do
    let s ← get
    let isLetter (d : CodePoint) : Bool := d ≠ ':' && d ≠ ')'
    let letters := (c :: s.rest).takeWhile isLetter
    let behind := (c :: s.rest).drop letters.length
    let added := letters.takeWhile fun d => d ≠ CodePoint.ofChar '-'
    let removed := letters.drop (added.length + 1)
    let step (on : Bool) (f : Option Flags) (d : CodePoint) : Option Flags :=
      f.bind (flagLetter? on d)
    let both := added.contains (CodePoint.ofChar 'a') && added.contains (CodePoint.ofChar 'u')
    match removed.foldl (step false) (added.foldl (step true) (some flags)), behind with
    | some f, d :: rest =>
      if both || (added.length < letters.length && removed.isEmpty) then failure
      set { s with rest }
      if d = ':' then return .plain f
      else if first && added.length = letters.length then do
        modify fun s => { s with flags := f }
        return .nothing
      else failure
    | _, _ => failure

def quantifier? : Reader (Option (Nat × Option Nat)) := do
  if (← takeIf '*') then return some (0, none)
  else if (← takeIf '+') then return some (1, none)
  else if (← takeIf '?') then return some (0, some 1)
  else do
    let s ← get
    if (← takeIf '{') then
      match ← counts with
      | some c => return some c
      | none => do
        set s
        return none
    else return none

def quantified (p : Pattern) : Reader Pattern := do
  match ← quantifier? with
  | none => return p
  | some (min, max) => do
    if !isRepeatable p then failure
    let lazy ← takeIf '?'
    let possessive ← if lazy then pure false else takeIf '+'
    let mode : Mode := if lazy then .lazy else if possessive then .possessive else .greedy
    -- a second quantifier has nothing of its own to repeat
    let s ← get
    match ← quantifier? with
    | some _ => failure
    | none => do
      set s
      return .repetition min max mode p

mutual

def alternatives (flags : Flags) (nested : Bool) : (fuel : Nat) → Reader Pattern
  | 0 => failure
  | fuel + 1 => do
    let first ← sequence flags nested fuel []
    let s ← get
    let flags := if nested then flags else s.flags
    if (← takeIf '|') then do
      modify fun s => { s with atStart := false }
      return .alt first (← alternatives flags nested fuel)
    else return first

/-- Patterns one after the other; those before are given in reverse. -/
def sequence (flags : Flags) (nested : Bool) : (fuel : Nat) → List Pattern → Reader Pattern
  | 0, _ => failure
  | fuel + 1, parts => do
    if flags.verbose then
      modify fun s => { s with rest := skipVerbose (s.rest.length + 1) s.rest }
    match ← peek with
    | none => return ofList parts.reverse
    | some c =>
      if c = '|' || c = ')' then return ofList parts.reverse
      else do
        let first := (← get).atStart && parts.isEmpty && !nested
        drop 1
        modify fun s => { s with atStart := first && c = CodePoint.ofChar '(' }
        if c = '(' then
          match ← opening flags first with
          | .nothing => do
            let s ← get
            let flags := if nested then flags else s.flags
            match parts with
            | p :: rest => sequence flags nested fuel ((← quantified p) :: rest)
            | [] => sequence flags nested fuel []
          | .whole p => sequence flags nested fuel ((← quantified p) :: parts)
          | .capture name => do
            let index := (← get).groups
            modify fun s => { s with
              groups := s.groups + 1
              opened := index :: s.opened
              names := (name.map fun n => (n, index)).toList ++ s.names }
            let body ← alternatives flags true fuel
            require ')'
            modify fun s => { s with
              opened := s.opened.erase index
              widths := ((body.width? s.widths).map fun w => (index, w)).toList ++ s.widths }
            sequence flags nested fuel ((← quantified (.group index body)) :: parts)
          | .plain f => do
            let body ← alternatives f true fuel
            require ')'
            let p ← quantified (.grouped body)
            sequence flags nested fuel (p :: parts)
          | .look behind negated => do
            let body ← alternatives flags true fuel
            require ')'
            let p ←
              if behind then do
                let s ← get
                match body.width? s.widths with
                | some w => pure (Pattern.lookbehind negated w body)
                | none => failure
              else pure (Pattern.lookahead negated body)
            sequence flags nested fuel ((← quantified p) :: parts)
          | .atomic => do
            let body ← alternatives flags true fuel
            require ')'
            sequence flags nested fuel ((← quantified (.atomic body)) :: parts)
          | .condition index => do
            let yes ← sequence flags true fuel []
            let no ← if (← takeIf '|') then sequence flags true fuel [] else pure .empty
            require ')'
            sequence flags nested fuel ((← quantified (.conditional index yes no)) :: parts)
        else do
          let p ←
            if c = '\\' then escape flags
            else if c = '[' then bracketed flags
            else if c = '.' then pure (.any flags.lineEnds)
            else if c = '^' then pure (.place (.lineStart flags.everyLine))
            else if c = '$' then pure (.place (.lineEnd flags.everyLine))
            else if c = '*' || c = '+' || c = '?' then failure
            else if c = '{' then do
              let s ← get
              match ← counts with
              | some _ => failure
              | none => do
                set s
                pure (.literal c flags.ignoreCase)
            else pure (.literal c flags.ignoreCase)
          sequence flags nested fuel ((← quantified p) :: parts)

end

def read? (t : Text) : Option Pattern :=
  match (alternatives {} false (2 * t.length + 2)).run { rest := t } with
  | some (p, s) => if s.rest.isEmpty && s.references.all (· < s.groups) then some p else none
  | none => none

end TaskContract.Pattern
