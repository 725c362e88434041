import TaskContract.Analysis.Calls

/-!
# Artifact references

Calls of `io.readArtifact` and `io.writeArtifact`. A call whose first argument is a literal names
its artifact; any other is kept with its source text for a later resolution. A read is required
unless a `try` statement surrounds it.
-/

namespace TaskContract.Analysis

open Script

def ioObject : Text := Text.ofString "io"
def readMethod : Text := Text.ofString "readArtifact"
def writeMethod : Text := Text.ofString "writeArtifact"

def isArtifactCall (s : Source) (method : Text) (n : Node) : Bool :=
  match calledMember? s n with
  | some (object, name) => name = method && isName s ioObject object
  | none => false

def artifactCalls (s : Source) (root : Node) (method : Text) : List Occurrence :=
  root.occurrences.filter fun o => isArtifactCall s method o.node

def isInsideTry (o : Occurrence) : Bool :=
  (o.within? (· = .tryStatement)).isSome

/-- A call of a method of `io`, with its name if that is a literal. -/
structure ArtifactCall where
  occurrence : Occurrence
  stage : Text
  argument : Option Node
  fileName : Option Text

def artifactCall (s : Source) (method : Text) (o : Occurrence) : Except CallError ArtifactCall :=
  match stageOf? s o with
  | none =>
    .error (.outsideStage (ioObject ++ Text.ofString "." ++ method) (s.location o.node.start))
  | some stage =>
    let argument := (callArguments o.node).head?
    match argument.elim (.ok none) (literalText? s) with
    | .error e => .error (.escape e)
    | .ok fileName => .ok { occurrence := o, stage, argument, fileName }

def ArtifactCall.unresolved (s : Source) (required : Option Bool) (c : ArtifactCall) :
    UnresolvedReference :=
  let location := s.location c.occurrence.node.start
  { expression := (c.argument.map s.nodeText).getD []
    codeContext := Text.ofChars (s.context location.line)
    stage := c.stage
    location
    required }

/-- What the reads of a script are: those with a name and those without, each in source order. -/
structure ArtifactReads where
  reads : List ArtifactRead
  unresolved : List UnresolvedReference

structure ArtifactWrites where
  writes : List ArtifactWrite
  unresolved : List UnresolvedReference

def ArtifactCall.isRequired (c : ArtifactCall) : Bool :=
  !isInsideTry c.occurrence

def ArtifactCall.read? (c : ArtifactCall) : Option ArtifactRead :=
  c.fileName.map fun fileName => { fileName, stage := c.stage, required := c.isRequired }

def ArtifactCall.write? (c : ArtifactCall) : Option ArtifactWrite :=
  c.fileName.map fun fileName => { fileName, stage := c.stage }

/-- The reads of a script; the first call that cannot be read off stops the search. -/
def artifactReads (s : Source) (root : Node) : Except CallError ArtifactReads := do
  let calls ← (artifactCalls s root readMethod).mapM (artifactCall s readMethod)
  return { reads := calls.filterMap ArtifactCall.read?
           unresolved := (calls.filter fun c => c.fileName.isNone).map fun c =>
             c.unresolved s (some c.isRequired) }

def artifactWrites (s : Source) (root : Node) : Except CallError ArtifactWrites := do
  let calls ← (artifactCalls s root writeMethod).mapM (artifactCall s writeMethod)
  return { writes := calls.filterMap ArtifactCall.write?
           unresolved := (calls.filter fun c => c.fileName.isNone).map fun c =>
             c.unresolved s none }

end TaskContract.Analysis
