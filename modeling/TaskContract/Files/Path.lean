import TaskContract.Text.CodePoint

/-!
# Paths

A path is a sequence of names, from the root or from the current directory. Empty names and single
dots do not count; double dots are kept, because what they mean depends on the directory before
them.
-/

namespace TaskContract

/-- A path: the slashes in front, if it is absolute, and the names. -/
structure Path where
  root : Text
  parts : List Text
  deriving DecidableEq

namespace Path

/-- The slashes that make a path absolute: one, or exactly two. -/
def rootOf (t : Text) : Text :=
  let slashes := t.takeWhile fun (c : CodePoint) => c = '/'
  if slashes.length = 2 then slashes else slashes.take 1

/-- The names of a path, without empty ones and single dots. -/
def namesOf (t : Text) : List Text :=
  (Text.splitOn '/' t).filter fun name => !name.isEmpty && name ≠ Text.ofString "."

def ofText (t : Text) : Path where
  root := rootOf t
  parts := namesOf t

instance : Coe Text Path := ⟨ofText⟩

def text (p : Path) : Text :=
  if p.root.isEmpty && p.parts.isEmpty then Text.ofString "."
  else p.root ++ Text.join (Text.ofString "/") p.parts

/-- A path from another one on. An absolute path stays itself. -/
def append (p q : Path) : Path :=
  if q.root.isEmpty then { p with parts := p.parts ++ q.parts } else q

instance : HDiv Path Path Path := ⟨append⟩

instance : HDiv Path Text Path := ⟨fun p t => p.append (ofText t)⟩

instance : HDiv Path String Path := ⟨fun p s => p.append (ofText (Text.ofString s))⟩

def parent (p : Path) : Path :=
  { p with parts := p.parts.dropLast }

/-- The last name, or nothing for a path without names. -/
def name (p : Path) : Text :=
  p.parts.getLast?.getD []

/-- A name without its last dot and what follows it, if that dot is neither first nor last. -/
def stemOf (name : Text) : Text :=
  match Text.lastIndexOf? '.' name with
  | some i => if 0 < i && i + 1 < name.length then name.take i else name
  | none => name

def stem (p : Path) : Text :=
  stemOf p.name

end Path

end TaskContract
