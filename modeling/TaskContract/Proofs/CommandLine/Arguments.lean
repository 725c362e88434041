import TaskContract.CommandLine.Command
import TaskContract.Proofs.Files.Spelling
import TaskContract.Proofs.Sequence

/-!
# Words that are read

An option whose value is the next word takes that word, whatever it looks like. So the words of a
call that gives its options by name are read as these options, and the paths among them are taken
where they lead to what is asked for.
-/

namespace TaskContract.CommandLine.Arguments

variable {files : FileTree} {given : List Occurrence} {p : Parameter}

theorem take_given {t : Text} {v : Value} (ht : textFor given p = some t)
    (hv : p.kind.value files t = .ok v) (rest : List Parameter) :
    take files given (p :: rest) = (take files given rest).map fun vs => (p.name, v) :: vs := by
  rw [take, ht]
  dsimp only
  rw [hv]

theorem take_absent (ht : textFor given p = none) (hp : (p.isRequired || p.isArgument) = false)
    (rest : List Parameter) : take files given (p :: rest) = take files given rest := by
  rw [take, ht]
  dsimp only
  rw [hp]
  rfl

/-! ## Numbers -/

theorem path_ne_count {t : Text} (isRight : FileTree.Found → Bool) (wrong : ValueProblem)
    (absent : Option ValueProblem) (n : Nat) :
    ValueKind.path files t isRight wrong absent ≠ .ok (.count n) := by
  intro h
  unfold ValueKind.path at h
  dsimp only at h
  split at h
  · cases absent <;> cases h
  · split at h <;> cases h
  · split at h
    · cases absent <;> cases h
    · cases h

/-- A number that is given is one at least. -/
theorem one_le_of_value {k : ValueKind} {t : Text} {n : Nat}
    (h : k.value files t = .ok (.count n)) : 1 ≤ n := by
  cases k with
  | flag => cases h
  | text => cases h
  | count =>
      rw [ValueKind.value] at h
      split at h
      · split at h
        · rename_i m _ hm
          cases h
          omega
        · cases h
      · cases h
  | file =>
      rw [ValueKind.value] at h
      exact absurd h (path_ne_count _ _ _ n)
  | directory mustExist =>
      rw [ValueKind.value] at h
      exact absurd h (path_ne_count _ _ _ n)

theorem one_le_of_take {ps : List Parameter} {vs : Values} (h : take files given ps = .ok vs)
    {name : String} {n : Nat} (hn : (name, Value.count n) ∈ vs) : 1 ≤ n := by
  induction ps generalizing vs with
  | nil =>
      cases h
      cases hn
  | cons p rest ih =>
      rw [take] at h
      split at h
      · split at h
        · cases h
        · exact ih h hn
      · split at h
        · cases h
        · cases h
        · rename_i v hv
          cases hrest : take files given rest with
          | error e =>
              rw [hrest] at h
              cases h
          | ok others =>
              rw [hrest] at h
              obtain rfl := Except.ok.inj h
              rcases List.mem_cons.mp hn with hfirst | hn
              · obtain ⟨rfl, rfl⟩ := Prod.mk.inj hfirst
                exact one_le_of_value hv
              · exact ih hrest hn

theorem one_le_of_read {ps : List Parameter} {isGroup : Bool} {words rest : List Text} {vs : Values}
    (h : read files ps isGroup words = .ok (vs, rest)) {name : String} {n : Nat}
    (hn : (name, Value.count n) ∈ vs) : 1 ≤ n := by
  obtain ⟨⟨options, others⟩, -, h⟩ := bind_eq_ok_iff.mp h
  dsimp only at h
  split at h
  · cases h
  · obtain ⟨values, htake, h⟩ := bind_eq_ok_iff.mp h
    obtain ⟨rfl, -⟩ := Prod.mk.inj (Except.ok.inj h)
    exact one_le_of_take htake hn

/-! ## The words of some calls -/

/-- The words with which the schemas of a task are deduced from its stored contract, with one
attempt for each artifact. -/
def deductionWords (analysis task output : Text) : List Text :=
  [Text.ofString "-a", analysis, Text.ofString "-t", task, Text.ofString "-o", output,
    Text.ofString "--retries", Text.ofString "1"]

def deductionValues (analysis task output : Text) : Values :=
  [("analysis", .path (Path.ofText analysis)), ("task", .path (Path.ofText task)),
    ("output", .path (Path.ofText output)), ("retries", .count 1)]

/-- The words are read where the paths lead to two files and a directory. -/
theorem read_deductionWords {analysis task output : Text} {place place' room : List Text}
    {text text' : Text}
    (hanalysis : files.locate (Path.ofText analysis) = .ok (.file place text))
    (htask : files.locate (Path.ofText task) = .ok (.file place' text'))
    (houtput : files.locate (Path.ofText output) = .ok (.directory room)) :
    read files Command.deduceSchemas.parameters Command.deduceSchemas.isGroup
        (deductionWords analysis task output)
      = .ok (deductionValues analysis task output, []) := by
  let ps := Command.deduceSchemas.parameters ++ [Parameter.help]
  let given : List Occurrence :=
    [⟨ps[0], analysis⟩, ⟨ps[1], task⟩, ⟨ps[2], output⟩, ⟨ps[3], Text.ofString "1"⟩]
  have hscan : scan ps false (deductionWords analysis task output) = .ok (given, []) := rfl
  have horder : order ps given = [ps[0], ps[1], ps[2], ps[3], ps[4]] := rfl
  have hread : read files Command.deduceSchemas.parameters Command.deduceSchemas.isGroup
        (deductionWords analysis task output)
      = (take files given (order ps given)).map fun vs => (vs, []) := rfl
  rw [hread, horder, take_given (p := ps[0]) (t := analysis) rfl (ValueKind.value_of_file hanalysis),
    take_given (p := ps[1]) (t := task) rfl (ValueKind.value_of_file htask),
    take_given (p := ps[2]) (t := output) rfl (ValueKind.value_of_directory houtput),
    take_given (p := ps[3]) (t := Text.ofString "1") (v := .count 1) rfl rfl,
    take_absent (p := ps[4]) rfl rfl]
  rfl

theorem read_group {c : Command} (hgroup : c.isGroup = true)
    (harguments : (c.parameters ++ [Parameter.help]).filter (·.isArgument) = []) {word : Text}
    (hword : isOptionWord word = false) (rest : List Text) :
    read files c.parameters c.isGroup (word :: rest)
      = (take files [] (order (c.parameters ++ [Parameter.help]) [])).map
        fun vs => (vs, word :: rest) := by
  have hscan : scan (c.parameters ++ [Parameter.help]) true (word :: rest)
      = .ok ([], word :: rest) := by
    have hdashes : word ≠ Text.ofString "--" := by
      rintro rfl
      cases hword
    rw [scan, if_neg hdashes, hword]
    rfl
  rw [read, hgroup]
  dsimp only
  rw [hscan, harguments]
  rfl

def standardValues : Values :=
  [("project", .path (Path.ofText (Text.ofString ".")))]

theorem read_program {word : Text} (hword : isOptionWord word = false) (rest : List Text) :
    read files Command.program.parameters Command.program.isGroup (word :: rest)
      = .ok (standardValues, word :: rest) := by
  rw [read_group rfl rfl hword]
  rfl

theorem read_schemas {word : Text} (hword : isOptionWord word = false) (rest : List Text) :
    read files Command.schemas.parameters Command.schemas.isGroup (word :: rest)
      = .ok ([], word :: rest) := by
  rw [read_group rfl rfl hword]
  rfl

end TaskContract.CommandLine.Arguments
