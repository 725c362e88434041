import TaskContract.Json.Value
import TaskContract.Text.Encoding
import TaskContract.Text.Printable
import TaskContract.Decimal.Shortest

/-!
# Writing JSON

A value is written in pieces, as they go to a file one after another; an integer of too many digits
has no text there. There are layouts on one line
and one indented by two blanks a level, in ASCII or with every code point as it is. Beside them
stands `Json.display`, the text of a value in messages.
-/

namespace TaskContract

namespace Text

def unitEscape (n : Nat) : Text :=
  ofString "\\u" ++ hex 4 n

def jsonCodePoint (ascii : Bool) (c : CodePoint) : Text :=
  if c = '"' then ofString "\\\""
  else if c = '\\' then ofString "\\\\"
  else if c = '\n' then ofString "\\n"
  else if c = '\r' then ofString "\\r"
  else if c = '\t' then ofString "\\t"
  else if c.val = 8 then ofString "\\b"
  else if c.val = 12 then ofString "\\f"
  else if c.val < 0x20 then unitEscape c.val
  else if ascii && 0x7F ≤ c.val then
    if c.val < 0x10000 then unitEscape c.val
    else
      let n := c.val - 0x10000
      unitEscape (0xD800 + n / 0x400) ++ unitEscape (0xDC00 + n % 0x400)
  else [c]

def jsonString (ascii : Bool) (t : Text) : Text :=
  CodePoint.ofChar '"' :: t.flatMap (jsonCodePoint ascii) ++ [CodePoint.ofChar '"']

end Text

namespace Json

def indentation (level : Nat) : Text :=
  CodePoint.ofChar '\n' :: List.replicate (2 * level) (CodePoint.ofChar ' ')

structure Layout where
  /-- Is everything above U+007E escaped? -/
  ascii : Bool
  /-- Does every item stand on a line of its own? -/
  indented : Bool := false
  /-- Does a blank follow every colon, and every comma within a line? -/
  spaced : Bool := true

def Layout.separator (layout : Layout) (level : Nat) : Text :=
  if layout.indented then CodePoint.ofChar ',' :: indentation level
  else Text.ofString (if layout.spaced then ", " else ",")

def Layout.colon (layout : Layout) : Text :=
  Text.ofString (if layout.spaced then ": " else ":")

def Layout.break (layout : Layout) (level : Nat) : Text :=
  if layout.indented then indentation level else []

/-- The text of a value that holds no other values, or of an empty one. -/
def atom? (layout : Layout) : Json → Option Text
  | .null => some (Text.ofString "null")
  | .bool b => some (Text.ofString (if b then "true" else "false"))
  | .int n => some (Text.ofInt n)
  | .float x => some (x.text Binary64.jsonNames)
  | .str s => some (Text.jsonString layout.ascii s)
  | .arr [] => some (Text.ofString "[]")
  | .obj [] => some [CodePoint.ofChar '{', CodePoint.ofChar '}']
  | _ => none

/-- How a value is cut into pieces: what a text makes, and what an atom makes together with the text
before it. -/
structure Cut (α : Type) where
  layout : Layout
  text : Text → α
  atom? : Text → Json → Option α

namespace Cut

variable {α : Type}

/-- The pieces of an item, with what stands before it. An atom makes one piece with that. -/
def joined (c : Cut α) (front : Text) (v : Json) (pieces : List α) : List α :=
  match c.atom? front v with
  | some piece => [piece]
  | none => c.text front :: pieces

mutual

def pieces (c : Cut α) (level : Nat) : Json → List α
  | .arr (v :: rest) =>
    c.joined (CodePoint.ofChar '[' :: c.layout.break (level + 1)) v (pieces c (level + 1) v)
      ++ items c (level + 1) rest ++ [c.text (c.layout.break level), c.text [CodePoint.ofChar ']']]
  | .obj ((k, v) :: rest) =>
    [c.text [CodePoint.ofChar '{'], c.text (c.layout.break (level + 1)),
        c.text (Text.jsonString c.layout.ascii k), c.text c.layout.colon]
      ++ pieces c (level + 1) v ++ members c (level + 1) rest
      ++ [c.text (c.layout.break level), c.text [CodePoint.ofChar '}']]
  | v => (c.atom? [] v).toList

/-- The further items of an array, each after a separator. -/
def items (c : Cut α) (level : Nat) : List Json → List α
  | [] => []
  | v :: rest =>
    c.joined (c.layout.separator level) v (pieces c level v) ++ items c level rest

def members (c : Cut α) (level : Nat) : List (Text × Json) → List α
  | [] => []
  | (k, v) :: rest =>
    [c.text (c.layout.separator level), c.text (Text.jsonString c.layout.ascii k),
        c.text c.layout.colon]
      ++ pieces c level v ++ members c level rest

end

def texts (layout : Layout) : Cut Text where
  layout := layout
  text := id
  atom? front v := (Json.atom? layout v).map fun t => front ++ t

/-- What goes to a file of an atom with the given text. There is nothing for an integer of too many
digits. -/
def portion (v : Json) (t : Text) : Portion :=
  match v with
  | .int n => if digitLimit < digitCount n then .error digitRefusal else .ok t
  | _ => .ok t

def portions (layout : Layout) : Cut Portion where
  layout := layout
  text := .ok
  atom? front v := (Json.atom? layout v).map fun t => portion v (front ++ t)

end Cut

def pieces (layout : Layout) (level : Nat) (v : Json) : List Text :=
  (Cut.texts layout).pieces level v

def render (layout : Layout) (v : Json) : Text :=
  (pieces layout 0 v).flatten

/-- The value on one line, in ASCII. -/
def compact (v : Json) : Text :=
  render { ascii := true } v

/-- The value on one line without blanks, with every code point as it is: the form of a request's
body. -/
def tight (v : Json) : Text :=
  render { ascii := false, spaced := false } v

/-- The value indented, in ASCII. -/
def prettyAscii (v : Json) : Text :=
  render { ascii := true, indented := true } v

/-- The layout of a stored file: indented, with every code point as it is. -/
def fileLayout : Layout :=
  { ascii := false, indented := true }

/-- The pieces of a stored file. It ends with a line feed. -/
def filePieces (v : Json) : List Text :=
  pieces fileLayout 0 v ++ [[CodePoint.ofChar '\n']]

/-- The pieces of a stored file as far as there are texts for them. -/
def filePortions (v : Json) : List Portion :=
  (Cut.portions fileLayout).pieces 0 v ++ [.ok [CodePoint.ofChar '\n']]

mutual

/-- The text of a value in a message. -/
def display : Json → Text
  | .null => Text.ofString "None"
  | .bool b => Text.ofString (if b then "True" else "False")
  | .int n => Text.ofInt n
  | .float x => x.text Binary64.displayNames
  | .str s => s.quoted
  | .arr [] => Text.ofString "[]"
  | .arr (v :: rest) =>
    CodePoint.ofChar '[' :: display v ++ displayItems rest ++ [CodePoint.ofChar ']']
  | .obj [] => [CodePoint.ofChar '{', CodePoint.ofChar '}']
  | .obj ((k, v) :: rest) =>
    CodePoint.ofChar '{' :: k.quoted ++ Text.ofString ": " ++ display v ++ displayMembers rest
      ++ [CodePoint.ofChar '}']

def displayItems : List Json → Text
  | [] => []
  | v :: rest => Text.ofString ", " ++ display v ++ displayItems rest

def displayMembers : List (Text × Json) → Text
  | [] => []
  | (k, v) :: rest =>
    Text.ofString ", " ++ k.quoted ++ Text.ofString ": " ++ display v ++ displayMembers rest

end

/-- The text of a value where it stands for itself: a string without its quotes. -/
def asText : Json → Text
  | .str s => s
  | v => v.display

end Json

end TaskContract
