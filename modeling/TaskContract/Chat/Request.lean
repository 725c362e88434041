import TaskContract.Json.Printer
import TaskContract.Text.Encoding

/-!
# Chat requests

A request for a completion, the providers that answer such requests, and the body that is sent to
one.
-/

namespace TaskContract.Chat

/-- A provider: where it is reached, which variable holds its key, and the model to ask by
default. -/
structure Provider where
  baseUrl : Text
  keyVariable : Text
  defaultModel : Text

abbrev Providers := List (Text × Provider)

def Providers.standard : Providers :=
  [(Text.ofString "deepseek",
      ⟨"https://api.deepseek.com", "DEEPSEEK_API_KEY", "deepseek-chat"⟩),
   (Text.ofString "openai", ⟨"https://api.openai.com/v1", "OPENAI_API_KEY", "gpt-4o-mini"⟩)]

/-- Variables of the environment, the first of a name being the one that counts. -/
abbrev Environment := List (Text × Text)

/-- Which providers have a key. -/
def Providers.available (ps : Providers) (env : Environment) : List (Text × Bool) :=
  ps.map fun (name, p) => (name, (env.lookup p.keyVariable).any fun key => !key.isEmpty)

/-- A request for a completion. Absent settings are null. -/
structure Request where
  provider : Text
  messages : List Json
  model : Option Text := none
  temperature : Json := .null
  responseFormat : Json := .null
  maxTokens : Json := .null

def isJsonFormat : Json → Bool
  | .str s => s = Text.ofString "json" || s = Text.ofString "json_object"
  | .obj ms =>
    match Members.get? (Text.ofString "type") ms with
    | some (.str s) => s = Text.ofString "json_object"
    | _ => false
  | _ => false

inductive MessageFault where
  | missing (field : String)
  | notAnObject
  deriving DecidableEq

def messageField (name : String) (m : Json) : Except MessageFault Json :=
  match m with
  | .obj ms =>
    match Members.get? (Text.ofString name) ms with
    | some v => .ok v
    | none => .error (.missing name)
  | _ => .error .notAnObject

def messageBody (m : Json) : Except MessageFault Json := do
  let role ← messageField "role" m
  let content ← messageField "content" m
  return .object [("role", role), ("content", content)]

def Request.modelOf (r : Request) (p : Provider) : Text :=
  match r.model with
  | some (c :: rest) => c :: rest
  | _ => p.defaultModel

def Request.body (r : Request) (p : Provider) : Except MessageFault Json := do
  let messages ← r.messages.mapM messageBody
  let optional (name : String) (v : Json) : List (String × Json) :=
    if v.isNull then [] else [(name, v)]
  return .object ([("model", .str (r.modelOf p)), ("messages", .arr messages)]
    ++ optional "temperature" r.temperature ++ optional "max_tokens" r.maxTokens
    ++ (if isJsonFormat r.responseFormat then
          [("response_format", .object [("type", .ofString "json_object")])] else []))

def Provider.url (p : Provider) : Text :=
  let base := if p.baseUrl.endsWith (Text.ofString "/") then p.baseUrl
    else p.baseUrl ++ Text.ofString "/"
  base ++ Text.ofString "chat/completions"

end TaskContract.Chat
