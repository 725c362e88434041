import TaskContract.Yaml.Token

/-!
# Lexemes of YAML

The tokens that are more than a sign: directives, names, tags, and scalars in their four forms. A
reader of one of these moves the state past it, or fails.
-/

namespace TaskContract.Yaml

namespace Reader

/-- The rest of a line that may hold blanks and a comment. -/
def endOfLine (r : Reader) : Option Reader :=
  let r := r.skipBlanks
  let r := if r.at? '#' then (r.takeWhile fun c => !isBreak c).2 else r
  if breaksOff r.peek then some r.lineBreak.2 else none

/-- The handle of a tag: exclamation marks with or without a word between them. -/
def tagHandle (r : Reader) : Option (Text × Reader) :=
  if !r.at? '!' then none
  else
    let word := (r.rest.drop 1).takeWhile isWordChar
    let after := (r.rest.drop 1).drop word.length
    if word.isEmpty && after.head? = some (CodePoint.ofChar ' ') then
      some ([CodePoint.ofChar '!'], r.forward)
    else if after.head? = some (CodePoint.ofChar '!') then
      some (CodePoint.ofChar '!' :: word ++ [CodePoint.ofChar '!'], r.advance (word.length + 2))
    else none

def tagUri (r : Reader) : Option (Text × Reader) :=
  let isUriChar (c : CodePoint) : Bool :=
    c.isAsciiLetter || c.isDigit || isOneOf "-;/?:@&=+$,_.!~*'()[]%" c
  let (t, after) := r.takeWhile isUriChar
  if t.isEmpty then none else some (t, after)

def directive (r : Reader) : Option Reader := do
  let (name, r) := r.forward.takeWhile isWordChar
  if name.isEmpty || !(breaksOff r.peek || r.at? ' ') then none
  else if name = Text.ofString "YAML" then
    let (major, r) := r.skipBlanks.takeWhile CodePoint.isDigit
    if major.isEmpty || !r.at? '.' then none
    else
      let (minor, r) := r.forward.takeWhile CodePoint.isDigit
      if minor.isEmpty || !(breaksOff r.peek || r.at? ' ') then none
      else
        (r.emit (.versionDirective (Text.digitsValue major) (Text.digitsValue minor))).endOfLine
  else if name = Text.ofString "TAG" then
    let (handle, r) ← r.skipBlanks.tagHandle
    if !r.at? ' ' then none
    else
      let (front, r) ← r.skipBlanks.tagUri
      if !(breaksOff r.peek || r.at? ' ') then none
      else (r.emit (.tagDirective handle front)).endOfLine
  else
    let (_, r) := r.takeWhile fun c => !isBreak c
    (r.emit .otherDirective).endOfLine

def anchorName (r : Reader) : Option (Text × Reader) :=
  let (name, r) := r.forward.takeWhile isWordChar
  if name.isEmpty || !(endsWord r.peek || r.peek.any (isOneOf "?:,]\x7d%@`")) then none
  else some (name, r)

/-- A tag: verbatim between angle brackets, or with a handle, or a lone exclamation mark. -/
def tagToken (r : Reader) : Option (Token × Reader) := do
  let (token, r) ← show Option (Token × Reader) from
    if r.peek 1 = some (CodePoint.ofChar '<') then do
      let (suffix, r) ← (r.advance 2).tagUri
      if r.at? '>' then some (.tag none suffix, r.forward) else none
    else if endsWord (r.peek 1) then
      some (.tag none (Text.ofString "!"), r.forward)
    else do
      let word := (r.rest.drop 1).takeWhile fun c => !(isBreak c || c = ' ')
      let (handle, r) ←
        if word.contains (CodePoint.ofChar '!') then r.tagHandle
        else some (Text.ofString "!", r.forward)
      let (suffix, r) ← r.tagUri
      some (.tag (some handle) suffix, r)
  if breaksOff r.peek || r.at? ' ' then some (token, r) else none

/-- The line breaks from here on, each before at most `column` blanks. -/
def breaksTo (column : Nat) : (fuel : Nat) → Reader → Text × Reader
  | 0, r => ([], r)
  | fuel + 1, r =>
    let blanks := (r.rest.takeWhile fun (c : CodePoint) => c = ' ').length
    let r := r.advance (min blanks (column - r.column))
    if r.peek.any isBreak then
      let (b, r) := r.lineBreak
      let (more, r) := breaksTo column fuel r
      (b ++ more, r)
    else ([], r)

/-- The line breaks before the first line with other than blanks, and the widest run of blanks. -/
def findIndentation : (fuel widest : Nat) → Reader → Text × Nat × Reader
  | 0, widest, r => ([], widest, r)
  | fuel + 1, widest, r =>
    let r := r.skipBlanks
    let widest := max widest r.column
    if r.peek.any isBreak then
      let (b, r) := r.lineBreak
      let (more, widest, r) := findIndentation fuel widest r
      (b ++ more, widest, r)
    else ([], widest, r)

/-- What a block scalar does with the line breaks at its end. -/
inductive Chomping where
  | strip
  | clip
  | keep

/-- The signs after the bar or the arrow of a block scalar: chomping and indentation. -/
def blockHeader (r : Reader) : Option (Chomping × Option Nat × Reader) :=
  let chomping? (r : Reader) : Option (Chomping × Reader) :=
    if r.at? '+' then some (.keep, r.forward)
    else if r.at? '-' then some (.strip, r.forward)
    else none
  let digit? (r : Reader) : Option (Nat × Reader) :=
    match r.peek with
    | some c => if c.isDigit then some (c.val - '0'.toNat, r.forward) else none
    | none => none
  let result : Chomping × Option Nat × Reader :=
    match chomping? r with
    | some (c, r) =>
      match digit? r with
      | some (n, r) => (c, some n, r)
      | none => (c, none, r)
    | none =>
      match digit? r with
      | some (n, r) =>
        match chomping? r with
        | some (c, r) => (c, some n, r)
        | none => (.clip, some n, r)
      | none => (.clip, none, r)
  let (chomping, increment, r) := result
  if increment = some 0 || !(breaksOff r.peek || r.at? ' ') then none
  else some (chomping, increment, r)

/-- The lines of a block scalar at a column. `breaks` are the line breaks before the next line. The
result ends with the last line break and the breaks after it. -/
def blockLines (folded : Bool) (column : Nat) :
    (fuel : Nat) → (breaks : Text) → Reader → Text × Text × Text × Reader
  | 0, breaks, r => ([], [], breaks, r)
  | fuel + 1, breaks, r =>
    if r.column ≠ column || r.peek.isNone then ([], [], breaks, r)
    else
      let isBlank (c : Option CodePoint) : Bool := c.any fun (c : CodePoint) => c = ' ' || c = '\t'
      let leading := isBlank r.peek
      let (line, r) := r.takeWhile fun c => !isBreak c
      let (lineBreak, r) := r.lineBreak
      let (next, r) := r.breaksTo column (r.rest.length + 1)
      if r.column = column && r.peek.isSome then
        let joint : Text :=
          if folded && lineBreak = [CodePoint.ofChar '\n'] && !leading && !isBlank r.peek then
            if next.isEmpty then [CodePoint.ofChar ' '] else []
          else lineBreak
        let (more, last, trailing, r) := blockLines folded column fuel next r
        (breaks ++ line ++ joint ++ more, last, trailing, r)
      else (breaks ++ line, lineBreak, next, r)

def blockScalar (folded : Bool) (r : Reader) : Option (Text × Reader) := do
  let (chomping, increment, r) ← r.forward.blockHeader
  let r ← r.endOfLine
  let least := match r.indent? with
    | some i => i + 1
    | none => 1
  let (breaks, column, r) := match increment with
    | some n =>
      let column := least + n - 1
      let (breaks, r) := r.breaksTo column (r.rest.length + 1)
      (breaks, column, r)
    | none =>
      let (breaks, widest, r) := r.findIndentation (r.rest.length + 1) 0
      (breaks, max least widest, r)
  let (text, last, trailing, r) := r.blockLines folded column (r.rest.length + 1) breaks
  return (match chomping with
    | .strip => text
    | .clip => text ++ last
    | .keep => text ++ last ++ trailing, r)

def escapes : List (Char × Nat) :=
  [('0', 0), ('a', 7), ('b', 8), ('t', 9), ('\t', 9), ('n', 10), ('v', 11), ('f', 12), ('r', 13),
   ('e', 27), (' ', 32), ('"', 34), ('\\', 92), ('/', 47), ('N', 0x85), ('_', 0xA0),
   ('L', 0x2028), ('P', 0x2029)]

def numericEscapes : List (Char × Nat) :=
  [('x', 2), ('u', 4), ('U', 8)]

def quotedBreaks : (fuel : Nat) → Reader → Option (Text × Reader)
  | 0, r => some ([], r)
  | fuel + 1, r =>
    if r.atAnyBoundary then none
    else
      let (_, r) := r.takeWhile fun (c : CodePoint) => c = ' ' || c = '\t'
      if r.peek.any isBreak then do
        let (b, r) := r.lineBreak
        let (more, r) ← quotedBreaks fuel r
        return (b ++ more, r)
      else some ([], r)

def escape (r : Reader) : Option (Text × Reader) :=
  let r := r.forward
  match r.peek with
  | none => none
  | some c =>
    match escapes.find? (fun e => c = e.1) with
    | some (_, n) => some ([CodePoint.ofNat n], r.forward)
    | none =>
      match numericEscapes.find? (fun e => c = e.1) with
      | some (_, count) =>
        let digits := (r.rest.drop 1).take count
        if digits.length = count && digits.all CodePoint.isHexDigit then
          let n := digits.foldl (fun n d => 16 * n + (d.hexValue?).getD 0) 0
          (CodePoint.ofNat? n).map fun c => ([c], r.advance (count + 1))
        else none
      | none =>
        if isBreak c then
          let (_, r) := r.lineBreak
          r.quotedBreaks (r.rest.length + 1)
        else none

def quotedGap (r : Reader) : Option (Text × Reader) :=
  let (blanks, r) := r.takeWhile fun (c : CodePoint) => c = ' ' || c = '\t'
  match r.peek with
  | none => none
  | some c =>
    if isBreak c then do
      let (lineBreak, r) := r.lineBreak
      let (breaks, r) ← r.quotedBreaks (r.rest.length + 1)
      if lineBreak ≠ [CodePoint.ofChar '\n'] then return (lineBreak ++ breaks, r)
      else if breaks.isEmpty then return ([CodePoint.ofChar ' '], r)
      else return (breaks, r)
    else some (blanks, r)

def quotedRest (double : Bool) : (fuel : Nat) → Reader → Option (Text × Reader)
  | 0, _ => none
  | fuel + 1, r => do
    let c ← r.peek
    if c = '\'' && !double then
      if r.peek 1 = some c then
        let (more, r) ← quotedRest double fuel (r.advance 2)
        return (c :: more, r)
      else return ([], r.forward)
    else if c = '"' && double then return ([], r.forward)
    else
      let (t, r) ← show Option (Text × Reader) from
        if c = '\\' && double then r.escape
        else if c = ' ' || c = '\t' || isBreak c then r.quotedGap
        else some ([c], r.forward)
      let (more, r) ← quotedRest double fuel r
      return (t ++ more, r)

def quotedScalar (double : Bool) (r : Reader) : Option (Text × Reader) :=
  r.forward.quotedRest double (r.rest.length + 1)

/-- The length of the part of a plain scalar up to the next blank or sign. -/
def plainLength (flow : Bool) : Text → Nat
  | [] => 0
  | c :: rest =>
    let next := rest.head?
    if endsWord (some c) then 0
    else if c = ':' && (endsWord next || (flow && next.any (isOneOf ",[]\x7b\x7d"))) then 0
    else if flow && isOneOf ",?[]\x7b\x7d" c then 0
    else 1 + plainLength flow rest

/-- The line breaks between two parts of a plain scalar, or nothing where a document ends. -/
def plainBreaks : (fuel : Nat) → Reader → Option Text × Reader
  | 0, r => (some [], r)
  | fuel + 1, r =>
    let r := r.skipBlanks
    if r.peek.any isBreak then
      let (b, r) := r.lineBreak
      if r.atAnyBoundary then (none, r)
      else
        match plainBreaks fuel r with
        | (some more, r) => (some (b ++ more), r)
        | (none, r) => (none, r)
    else (some [], r)

/-- The blanks and line breaks after a part of a plain scalar. It is empty where the scalar ends. -/
def plainGap (r : Reader) : Text × Reader :=
  let (blanks, r) := r.takeWhile fun (c : CodePoint) => c = ' '
  if r.peek.any isBreak then
    let (lineBreak, r) := r.lineBreak
    let r := { r with keyAllowed := true }
    if r.atAnyBoundary then ([], r)
    else
      match r.plainBreaks (r.rest.length + 1) with
      | (none, r) => ([], r)
      | (some breaks, r) =>
        if lineBreak ≠ [CodePoint.ofChar '\n'] then (lineBreak ++ breaks, r)
        else if breaks.isEmpty then ([CodePoint.ofChar ' '], r)
        else (breaks, r)
  else (blanks, r)

/-- The parts of a plain scalar. `gap` is what stands before the next one. -/
def plainParts : (fuel : Nat) → (gap : Text) → Reader → Text × Reader
  | 0, _, r => ([], r)
  | fuel + 1, gap, r =>
    let n := plainLength (0 < r.flow) r.rest
    if r.at? '#' || n = 0 then ([], r)
    else
      let part := r.rest.take n
      let (next, r) := { r.advance n with keyAllowed := false }.plainGap
      if next.isEmpty || r.at? '#' || (r.flow = 0 && !r.isIndented r.column) then (gap ++ part, r)
      else
        let (more, r) := plainParts fuel next r
        (gap ++ part ++ more, r)

def plainScalar (r : Reader) : Text × Reader :=
  r.plainParts (r.rest.length + 1) []

def atPlain (r : Reader) : Bool :=
  match r.peek with
  | none => false
  | some c =>
    !(endsWord (some c) || isOneOf "-?:,[]\x7b\x7d#&*!|>'\"%@`" c)
      || (!endsWord (r.peek 1) && (c = '-' || (r.flow = 0 && (c = '?' || c = ':'))))

end Reader

end TaskContract.Yaml
