import TaskContract.Analysis.Contract
import TaskContract.Chat.Client

/-!
# Resolution of references

A model is asked which of the known artifacts a reference with a computed name means. The answer
is a guess with a confidence: whatever goes wrong on the way makes it a guess of nothing with
confidence zero, never an error.
-/

namespace TaskContract

/-- A guess at the artifact that a reference means. -/
structure Resolution where
  fileName : Option Text
  confidence : Binary64
  reasoning : Text

namespace Resolution

def failed : Resolution where
  fileName := none
  confidence := .zero
  reasoning := Text.ofString "Failed to analyze artifact reference"

def isAdoptableAt (r : Resolution) (threshold : Binary64) : Bool :=
  r.fileName.isSome && threshold.le r.confidence

/-- The confidence from which a guess is adopted by default: seven tenths. -/
def adoptionThreshold : Binary64 := .ofDecimal false 7 (-1)

def isAdoptable (r : Resolution) : Bool :=
  r.isAdoptableAt adoptionThreshold

def toJson (r : Resolution) : Json :=
  .object [("resolvedFileName", .ofText? r.fileName), ("confidence", .float r.confidence),
    ("reasoning", .str r.reasoning)]

/-- The number moved to the nearer end of the interval from zero to one if it is outside. A NaN
stays what it is. -/
def clamp (x : Binary64) : Binary64 :=
  let one := Binary64.ofRatio false 1 1
  let x := if x.lt .zero then .zero else x
  if one.lt x then one else x

/-- The confidence that a reply states: zero if it is no number, and nothing if it is an integer
beyond the floating-point range. -/
def readConfidence : Option Json → Option Binary64
  | some (.float x) => some (clamp x)
  | some (.int n) => (Binary64.ofInt? n).map clamp
  | _ => some .zero

/-- The guess in the content of a reply, if it is an object or the text of one. -/
def ofContent? (content : Json) : Option Resolution := do
  let value ← match content with
    | .str t => (Json.read t).toOption
    | v => some v
  let members ← value.obj?
  let member (name : String) : Option Json := Members.get? (Text.ofString name) members
  let confidence ← readConfidence (member "confidence")
  return { fileName := ((member "resolvedFileName").bind Json.str?).filter fun t => !t.isEmpty
           confidence
           reasoning := ((member "reasoning").bind Json.str?).getD [] }

def systemPrompt : Text := Text.join (Text.ofString "\n") [
  "You are an expert code analyzer. Your task is to match a dynamic artifact reference in "
    ++ "JavaScript code to one of the known artifact filenames.",
  "",
  "Given:",
  "1. The full task source code",
  "2. A dynamic expression used as the filename argument of io.readArtifact() or "
    ++ "io.writeArtifact()",
  "3. The code surrounding the call",
  "4. A list of known artifact filenames",
  "",
  "Work out what the dynamic expression most likely evaluates to, then match it against the "
    ++ "known artifacts.",
  "",
  "Respond with JSON of this shape:",
  "\x7b",
  "  \"resolvedFileName\": \"matched-artifact.json\" or null if nothing matches,",
  "  \"confidence\": number between 0.0 and 1.0,",
  "  \"reasoning\": \"brief explanation of your analysis\"",
  "\x7d",
  "",
  "Guidelines:",
  "- Follow variable assignments, function return values and naming patterns",
  "- Use the stage name and surrounding code as clues",
  "- Return confidence 0 when no reasonable match exists",
  "- Only return high confidence (>= 0.7) when the evidence is strong",
  "- If several artifacts could match, pick the most likely one and lower the confidence"]

def userPrompt (code : Text) (r : UnresolvedReference) (known : List Text) : Text :=
  let list := known.map fun name => Text.ofString "- " ++ name
  Text.join (Text.ofString "\n") [
    "Task source code:",
    "```javascript",
    code,
    "```",
    "",
    Text.ofString "Dynamic expression: " ++ r.expression,
    Text.ofString "Stage: " ++ r.stage,
    "Code context:",
    "```javascript",
    r.codeContext,
    "```",
    "",
    "Known artifact filenames:",
    Text.join (Text.ofString "\n") list,
    "",
    "Determine which artifact this expression most likely refers to."]

end Resolution

namespace Chat

def promptMessages (system user : Text) : List Json :=
  [.object [("role", .ofString "system"), ("content", .str system)],
   .object [("role", .ofString "user"), ("content", .str user)]]

structure Model where
  provider : Text := Text.ofString "deepseek"
  name : Text := Text.ofString "deepseek-chat"

end Chat

def resolutionRequest (model : Chat.Model) (code : Text) (r : UnresolvedReference)
    (known : List Text) : Chat.Request where
  provider := model.provider
  model := some model.name
  temperature := .int 0
  responseFormat := .ofString "json_object"
  messages := Chat.promptMessages Resolution.systemPrompt (Resolution.userPrompt code r known)

def Resolution.ofReply : Chat.Reply → Resolution
  | .response content => (Resolution.ofContent? content).getD .failed
  | _ => .failed

def resolve {σ : Type} (client : Chat.Client σ) (model : Chat.Model) (code : Text)
    (r : UnresolvedReference) (known : List Text) (state : σ) : Resolution × σ :=
  let (reply, state) := client (resolutionRequest model code r known) state
  (.ofReply reply, state)

end TaskContract
