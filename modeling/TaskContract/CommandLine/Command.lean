import TaskContract.CommandLine.Arguments

/-!
# Commands

The commands of the program with their parameters, and what the program says about a command: how
it is used, and what it is for.
-/

namespace TaskContract.CommandLine

/-- A command: the words that call it, what it takes, and what it is for. A group has commands of
its own, each with a summary. -/
structure Command where
  words : List String
  parameters : List Parameter := []
  commands : List (String × String) := []
  description : List String

namespace Command

def isGroup (c : Command) : Bool :=
  !c.commands.isEmpty

def path (c : Command) : Text :=
  Text.ofString (String.intercalate " " c.words)

/-! ## The commands of the program -/

def program : Command where
  words := ["pipedash"]
  parameters := [
    { name := "project", letter := some 'p', kind := .directory true, standard := some "."
      description := "Project directory (default: current directory)" },
    { name := "verbose", letter := some 'v', kind := .flag
      description := "Enable debug logging" }]
  commands := [("analyze", "Analyze pipeline task files."),
    ("schemas", "Deduce and inspect artifact schemas.")]
  description := ["pipedash - pipeline task analysis CLI.",
    "Analyzes pipeline task files and deduces JSON schemas for the artifacts they write."]

def analyze : Command where
  words := ["pipedash", "analyze"]
  commands := [("pipeline", "Analyze every task of a pipeline and deduce..."),
    ("task", "Print the analysis of one task file as JSON.")]
  description := ["Analyze pipeline task files.",
    "Extracts stages, artifact reads/writes and LLM calls from task sources."]

def analyzeTask : Command where
  words := ["pipedash", "analyze", "task"]
  parameters := [{ name := "TASK_PATH", isArgument := true, kind := .file }]
  description := ["Print the analysis of one task file as JSON.",
    "Set PIPEDASH_DEBUG=1 to get the full traceback on analysis errors.",
    "Examples: pipedash analyze task pipeline-config/content/tasks/research.js"]

def analyzePipeline : Command where
  words := ["pipedash", "analyze", "pipeline"]
  parameters := [
    { name := "SLUG", isArgument := true, kind := .text },
    { name := "concurrency", letter := some 'c', kind := .count
      description := "Max concurrent LLM requests (default: analysis.concurrency from "
        ++ "pipedash.yaml)" }]
  description := ["Analyze every task of a pipeline and deduce artifact schemas.",
    "Writes analysis/<task>.analysis.json and schemas/<artifact>.*.json into the pipeline "
      ++ "directory.",
    "Examples: pipedash analyze pipeline content pipedash analyze pipeline content "
      ++ "--concurrency 4"]

def schemas : Command where
  words := ["pipedash", "schemas"]
  commands := [("deduce", "Deduce JSON schemas for the JSON artifacts a..."),
    ("show", "Show the stored schema, sample and meta for...")]
  description := ["Deduce and inspect artifact schemas."]

def deduceSchemas : Command where
  words := ["pipedash", "schemas", "deduce"]
  parameters := [
    { name := "analysis", letter := some 'a', kind := .file, isRequired := true
      description := "Path to the task's .analysis.json file" },
    { name := "task", letter := some 't', kind := .file, isRequired := true
      description := "Path to the task source file" },
    { name := "output", letter := some 'o', kind := .directory false, standard := some "."
      description := "Output directory; schema files go to <output>/schemas/" },
    { name := "retries", kind := .count
      description := "Attempts per artifact (default: analysis.schema_retries from "
        ++ "pipedash.yaml)" }]
  description := ["Deduce JSON schemas for the JSON artifacts a task writes.",
    "Examples: pipedash schemas deduce -a analysis/research.analysis.json -t "
      ++ "tasks/research.js pipedash schemas deduce -a research.analysis.json -t research.js "
      ++ "-o pipeline-config/content"]

def showSchema : Command where
  words := ["pipedash", "schemas", "show"]
  parameters := [
    { name := "PIPELINE_SLUG", isArgument := true, kind := .text },
    { name := "ARTIFACT", isArgument := true, kind := .text },
    { name := "prompt", kind := .flag, description := "Print as a markdown prompt section" }]
  description := ["Show the stored schema, sample and meta for an artifact.",
    "Examples: pipedash schemas show content research-output.json pipedash schemas show "
      ++ "content research-output.json --prompt"]

/-! ## What is said about a command -/

def usage (c : Command) : Text :=
  let arguments := (c.parameters.filter (·.isArgument)).map (·.name)
  let words := "[OPTIONS]" :: (if c.isGroup then ["COMMAND", "[ARGS]..."] else arguments)
  Text.ofString "Usage: " ++ c.path ++ Text.ofString (" " ++ String.intercalate " " words)

def complaint (c : Command) (f : UsageFault) : Text :=
  c.usage ++ Text.ofString "\nTry '" ++ c.path ++ Text.ofString " --help' for help.\n\nError: "
    ++ f.message

def helpWidth : Nat := 78

/-- The words in lines of at most the given width, after a line that is begun. -/
def fill (width : Nat) : (line : String) → List String → List String
  | line, [] => if line.isEmpty then [] else [line]
  | line, word :: rest =>
    if line.isEmpty then fill width word rest
    else if line.length + 1 + word.length ≤ width then fill width (line ++ " " ++ word) rest
    else line :: fill width word rest

def spaces (n : Nat) : String :=
  String.ofList (List.replicate n ' ')

def paragraph (text : String) : List String :=
  (fill (helpWidth - 2) "" (text.splitOn " ")).map fun line => "  " ++ line

def table (rows : List (String × String)) : List String :=
  let widest := (rows.map fun r => r.1.length).foldl max 0
  let column := min widest 30 + 2
  rows.flatMap fun (name, meaning) =>
    let meaning := fill (helpWidth - column - 2) "" (meaning.splitOn " ")
    let margin := spaces (column + 2)
    if name.length + 2 ≤ column then
      match meaning with
      | [] => ["  " ++ name]
      | first :: rest =>
        ("  " ++ name ++ spaces (column - name.length) ++ first) :: rest.map (margin ++ ·)
    else ("  " ++ name) :: meaning.map (margin ++ ·)

def optionRow (p : Parameter) : String × String :=
  let short := (p.letter.map fun c => String.ofList ['-', c, ',', ' ']).getD ""
  let value := if p.takesValue then " " ++ p.kind.placeholder else ""
  let range := if p.kind = .count then "  [x>=1]" else ""
  let required := if p.isRequired then "  [required]" else ""
  (short ++ "--" ++ p.name ++ value, p.description ++ range ++ required)

def help (c : Command) : List String :=
  let options := (c.parameters ++ [Parameter.help]).filter fun p => !p.isArgument
  (c.description.flatMap fun text => "" :: paragraph text)
    ++ ["", "Options:"] ++ table (options.map optionRow)
    ++ (if c.isGroup then ["", "Commands:"] ++ table c.commands else [])

def manual (c : Command) : Text :=
  Text.join (Text.ofString "\n") (c.usage :: c.help.map Text.ofString)

end Command

end TaskContract.CommandLine
