import TaskContract.Json.Value

/-!
# Events of a run

What an observer of the analysis of a pipeline is told, as it happens.
-/

namespace TaskContract

structure Summary where
  pipeline : Text
  tasks : Nat
  artifacts : Nat
  milliseconds : Nat := 0

def Summary.toJson (s : Summary) : Json :=
  .object [("pipelineSlug", .str s.pipeline), ("tasksAnalyzed", .ofNat s.tasks),
    ("artifactsProcessed", .ofNat s.artifacts), ("durationMs", .ofNat s.milliseconds)]

structure TaskProgress where
  task : Text
  index : Nat
  total : Nat

structure ArtifactProgress where
  task : Text
  artifact : Text
  index : Nat
  total : Nat

inductive Event where
  | started (pipeline : Text) (tasks artifacts : Nat)
  | taskStart (p : TaskProgress)
  | artifactStart (p : ArtifactProgress)
  | artifactComplete (p : ArtifactProgress)
  | taskComplete (p : TaskProgress) (resolvedReads resolvedWrites : List Text)
  | complete (s : Summary)
  | error (message : Text) (task artifact : Option Text)

namespace TaskProgress

def members (p : TaskProgress) : List (String × Json) :=
  [("taskId", .str p.task), ("taskIndex", .ofNat p.index), ("totalTasks", .ofNat p.total)]

end TaskProgress

namespace ArtifactProgress

def members (p : ArtifactProgress) : List (String × Json) :=
  [("taskId", .str p.task), ("artifactName", .str p.artifact), ("artifactIndex", .ofNat p.index),
    ("totalArtifacts", .ofNat p.total)]

end ArtifactProgress

namespace Event

def kind : Event → String
  | started .. => "started"
  | taskStart _ => "task:start"
  | artifactStart _ => "artifact:start"
  | artifactComplete _ => "artifact:complete"
  | taskComplete .. => "task:complete"
  | complete _ => "complete"
  | error .. => "error"

def data : Event → Json
  | started pipeline tasks artifacts =>
    .object [("pipelineSlug", .str pipeline), ("totalTasks", .ofNat tasks),
      ("totalArtifacts", .ofNat artifacts)]
  | taskStart p => .object p.members
  | artifactStart p => .object p.members
  | artifactComplete p => .object p.members
  | taskComplete p reads writes =>
    .object (p.members ++ [("resolvedReads", .arr (reads.map Json.str)),
      ("resolvedWrites", .arr (writes.map Json.str))])
  | complete s => s.toJson
  | error message task artifact =>
    .object ([("message", .str message)]
      ++ (task.map fun t => ("taskId", Json.str t)).toList
      ++ (artifact.map fun a => ("artifactName", Json.str a)).toList)

end Event

end TaskContract
