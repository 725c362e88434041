import TaskContract.CommandLine.Parameter
import TaskContract.Text.Similarity

/-!
# Arguments

How a list of words is read as the options and arguments of a command. An option has its value in
the same word or in the next one, short options may share a word, and after a double dash there are
no options. All values are then taken in the order in which they were given.
-/

namespace TaskContract.CommandLine

inductive UsageFault where
  | noSuchOption (name : Text) (similar : List Text)
  | noSuchCommand (name : Text) (similar : List Text)
  | noCommand
  | needsValue (name : Text)
  | takesNoValue (name : Text)
  | missing (p : Parameter)
  | invalid (p : Parameter) (problem : ValueProblem)
  | surplus (words : List Text)
  deriving DecidableEq

namespace UsageFault

def suggestion : List Text → Text
  | [] => []
  | [name] => Text.ofString " Did you mean " ++ name.quoted ++ Text.ofString "?"
  | names => Text.ofString " (Did you mean one of: "
      ++ Text.join (Text.ofString ", ") (names.map Text.quoted) ++ Text.ofString "?)"

def message : UsageFault → Text
  | noSuchOption name similar =>
    Text.ofString "No such option " ++ name.quoted ++ Text.ofString "." ++ suggestion similar
  | noSuchCommand name similar =>
    Text.ofString "No such command " ++ name.quoted ++ Text.ofString "." ++ suggestion similar
  | noCommand => Text.ofString "Missing command."
  | needsValue name =>
    Text.ofString "Option " ++ name.quoted ++ Text.ofString " requires an argument."
  | takesNoValue name =>
    Text.ofString "Option " ++ name.quoted ++ Text.ofString " does not take a value."
  | missing p =>
    Text.ofString (if p.isArgument then "Missing argument " else "Missing option ")
      ++ p.label ++ Text.ofString "."
  | invalid p problem =>
    Text.ofString "Invalid value for " ++ p.label ++ Text.ofString ": " ++ problem.message
  | surplus words =>
    Text.ofString (if words.length = 1 then "Got unexpected extra argument ("
        else "Got unexpected extra arguments (")
      ++ Text.join (Text.ofString " ") words ++ Text.ofString ")"

end UsageFault

/-! ## Words -/

/-- A parameter with the text that is given for it. -/
structure Occurrence where
  parameter : Parameter
  text : Text

/-- What one word gives: options with their values, and perhaps an option whose value is the next
word, with the name under which it was written. -/
structure WordReading where
  complete : List Occurrence
  pending : Option (Parameter × Text) := none

namespace Arguments

def long? (ps : List Parameter) (name : Text) : Option Parameter :=
  ps.find? fun p => !p.isArgument && name = Text.ofString ("--" ++ p.name)

def short? (ps : List Parameter) (c : CodePoint) : Option Parameter :=
  ps.find? fun p => !p.isArgument && p.letter.any fun l => CodePoint.ofChar l = c

/-- Short options in one word. The first that takes a value takes the rest of the word. -/
def readLetters (ps : List Parameter) : Text → Except UsageFault WordReading
  | [] => .ok { complete := [] }
  | c :: rest =>
    let name : Text := [CodePoint.ofChar '-', c]
    match short? ps c with
    | none => .error (.noSuchOption name [])
    | some p =>
      if p.takesValue then
        if rest.isEmpty then .ok { complete := [], pending := some (p, name) }
        else .ok { complete := [⟨p, rest⟩] }
      else (readLetters ps rest).map fun r => { r with complete := ⟨p, []⟩ :: r.complete }

/-- A word that begins with a dash: a long option, with or without its value after an equals sign,
or else short options. -/
def readWord (ps : List Parameter) (word : Text) : Except UsageFault WordReading :=
  let name := word.takeWhile fun (c : CodePoint) => c ≠ '='
  let attached : Option Text :=
    if name.length < word.length then some (word.drop (name.length + 1)) else none
  match long? ps name with
  | some p =>
    match attached with
    | some v =>
      if p.takesValue then .ok { complete := [⟨p, v⟩] } else .error (.takesNoValue name)
    | none =>
      if p.takesValue then .ok { complete := [], pending := some (p, name) }
      else .ok { complete := [⟨p, []⟩] }
  | none =>
    if word.startsWith (Text.ofString "--") then
      let known := (ps.filter fun p => !p.isArgument).map fun p => Text.ofString ("--" ++ p.name)
      .error (.noSuchOption name (Text.suggestions name known))
    else readLetters ps (word.drop 1)

/-- Is the word one of options? A dash alone is not. -/
def isOptionWord : Text → Bool
  | c :: _ :: _ => c = '-'
  | _ => false

/-- The options among words, and the other words. For a group of commands the first word that is
no option ends the options. -/
def scan (ps : List Parameter) (isGroup : Bool) :
    List Text → Except UsageFault (List Occurrence × List Text)
  | [] => .ok ([], [])
  | word :: rest =>
    if word = Text.ofString "--" then .ok ([], rest)
    else if isOptionWord word then
      match readWord ps word with
      | .error f => .error f
      | .ok { complete, pending := none } =>
        (scan ps isGroup rest).map fun (more, words) => (complete ++ more, words)
      | .ok { complete, pending := some (p, name) } =>
        match rest with
        | [] => .error (.needsValue name)
        | v :: rest =>
          (scan ps isGroup rest).map fun (more, words) => (complete ++ ⟨p, v⟩ :: more, words)
    else if isGroup then .ok ([], word :: rest)
    else (scan ps isGroup rest).map fun (more, words) => (more, word :: words)

/-! ## Values -/

abbrev Values := List (String × Value)

/-- Why words are not taken: they are wrong, a path among them cannot be asked for, or help is
asked for. -/
inductive Refusal where
  | usage (f : UsageFault)
  | file (e : FileError)
  | help

/-- The parameters in the order in which their values are taken: the options that are given, the
arguments, then all other options. -/
def order (ps : List Parameter) (given : List Occurrence) : List Parameter :=
  let options := (given.map (·.parameter)).eraseDups
  let arguments := ps.filter (·.isArgument)
  options ++ arguments ++ ps.filter fun p => !p.isArgument && !options.contains p

/-- The text for a parameter: the last one given, or else the standard one. -/
def textFor (given : List Occurrence) (p : Parameter) : Option Text :=
  match given.reverse.find? fun o => o.parameter = p with
  | some o => some o.text
  | none => p.standard.map Text.ofString

/-- The values of some parameters, up to the first that is missing or wrong. -/
def take (files : FileTree) (given : List Occurrence) : List Parameter → Except Refusal Values
  | [] => .ok []
  | p :: rest =>
    match textFor given p with
    | none =>
      if p.isRequired || p.isArgument then .error (.usage (.missing p))
      else take files given rest
    | some t =>
      match p.kind.value files t with
      | .error (.problem problem) => .error (.usage (.invalid p problem))
      | .error (.file e) => .error (.file e)
      | .ok v => (take files given rest).map fun vs => (p.name, v) :: vs

/-- Reads words as the options and arguments of a command. Gives the values and the words left. -/
def read (files : FileTree) (ps : List Parameter) (isGroup : Bool) (words : List Text) :
    Except Refusal (Values × List Text) := do
  let ps := ps ++ [Parameter.help]
  let (options, words) ← (scan ps isGroup words).mapError Refusal.usage
  if options.any fun o => o.parameter = Parameter.help then throw .help
  let arguments := ps.filter (·.isArgument)
  let given := options ++ (arguments.zip words).map fun (p, w) => ⟨p, w⟩
  let values ← take files given (order ps options)
  return (values, words.drop arguments.length)

end Arguments

end TaskContract.CommandLine
