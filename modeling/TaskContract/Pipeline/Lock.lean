import TaskContract.Json.Value

/-!
# The lock

At most one pipeline is analyzed at a time. The lock is free or held by one slug; holding it does
not allow to take it again.
-/

namespace TaskContract

structure Lock where
  holder : Option Text := none
  deriving DecidableEq

inductive LockError where
  /-- The slug is empty or no text. -/
  | invalidSlug (typeName : String)
  | notHeld (slug : Text)
  | heldByOther (slug holder : Text)
  deriving DecidableEq

namespace LockError

def message : LockError → Text
  | invalidSlug typeName =>
    Text.ofString ("Invalid pipeline_slug: expected non-empty string, got " ++ typeName)
  | notHeld slug =>
    Text.ofString "Cannot release lock for '" ++ slug
      ++ Text.ofString "': no lock is currently held"
  | heldByOther slug holder =>
    Text.ofString "Cannot release lock for '" ++ slug ++ Text.ofString "': lock is held by '"
      ++ holder ++ Text.ofString "'"

end LockError

inductive Acquisition where
  | acquired
  | refused (holder : Text)
  deriving DecidableEq

def Acquisition.toJson : Acquisition → Json
  | .acquired => .object [("acquired", .bool true)]
  | .refused holder => .object [("acquired", .bool false), ("heldBy", .str holder)]

namespace Lock

/-- The slug that a value is, if it is a text that is not empty. -/
def slugOf (v : Json) : Except LockError Text :=
  match v with
  | .str (c :: rest) => .ok (c :: rest)
  | v => .error (.invalidSlug v.typeName)

def acquire (l : Lock) (slug : Text) : Except LockError Acquisition × Lock :=
  if slug.isEmpty then (.error (.invalidSlug (Json.typeName (.str slug))), l)
  else
    match l.holder with
    | none => (.ok .acquired, { holder := some slug })
    | some holder => (.ok (.refused holder), l)

/-- Gives the lock back. Only its holder can. -/
def release (l : Lock) (slug : Text) : Except LockError Unit × Lock :=
  if slug.isEmpty then (.error (.invalidSlug (Json.typeName (.str slug))), l)
  else
    match l.holder with
    | none => (.error (.notHeld slug), l)
    | some holder =>
      if holder = slug then (.ok (), { holder := none })
      else (.error (.heldByOther slug holder), l)

end Lock

end TaskContract
