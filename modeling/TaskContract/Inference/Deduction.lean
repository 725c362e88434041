import TaskContract.Inference.Resolution
import TaskContract.Schema.Validator

/-!
# Deduction of schemas

A model is asked for the schema of an artifact that a task writes, with an example. The reply is
accepted only if the schema is valid and the example fulfils it.
-/

namespace TaskContract

structure DeducedSchema where
  schema : Json
  sample : Json
  reasoning : Text

def DeducedSchema.toJson (d : DeducedSchema) : Json :=
  .object [("schema", d.schema), ("example", d.sample), ("reasoning", .str d.reasoning)]

inductive DeductionError where
  | chat (f : Chat.Failure)
  /-- There is no response, or something else in its place. -/
  | noResponse (fileName : Text)
  /-- The content of the response is no object. -/
  | noObject (fileName : Text)
  /-- The object has not the members it should have. -/
  | wrongShape (fileName : Text)
  /-- The schema is not valid. -/
  | badSchema (fileName message : Text)
  /-- The example does not fulfil the schema. -/
  | badExample (fileName : Text) (violations : List Schema.Violation)
  /-- The schema cannot be followed. -/
  | obstacle (o : Schema.Obstacle)
  deriving DecidableEq

namespace DeductionError

def message : DeductionError → Text
  | chat f => f.text
  | noResponse n =>
    Text.ofString ("LLM response is missing or not an object when deducing artifact schema for ")
      ++ n.quoted
  | noObject n =>
    Text.ofString ("LLM response content is missing or not an object when deducing artifact "
      ++ "schema for ") ++ n.quoted
  | wrongShape n =>
    Text.ofString ("LLM returned invalid structured output when deducing artifact schema for ")
      ++ n.quoted
      ++ Text.ofString (". Expected properties: \x7bschema: object, example: object, "
        ++ "reasoning: string\x7d.")
  | badSchema n m =>
    Text.ofString "LLM returned an invalid JSON Schema for " ++ n.quoted ++ Text.ofString ": " ++ m
  | badExample n vs =>
    Text.ofString "Generated example for " ++ n.quoted
      ++ Text.ofString " does not validate against schema: "
      ++ (Json.arr (vs.map Schema.Violation.toJson)).compact
  | obstacle o => o.message

/-- The artifact that the error is about, if it is about the reply. -/
def fileName? : DeductionError → Option Text
  | noResponse n | noObject n | wrongShape n | badSchema n _ | badExample n _ => some n
  | chat _ | obstacle _ => none

end DeductionError

namespace DeducedSchema

def systemPrompt : Text := Text.join (Text.ofString "\n") [
  "You are a code analysis expert who deduces JSON schemas from JavaScript source code.",
  "",
  "Your task: given a pipeline task's source code and a target artifact filename, produce the "
    ++ "JSON Schema describing that artifact's structure.",
  "",
  "ANALYSIS STRATEGY (in this order):",
  "1. FIRST: Look for an exported schema constant (e.g. `export const <name>Schema = "
    ++ "\x7b...\x7d`) that matches the artifact",
  "2. SECOND: Find the io.writeArtifact() call for this artifact and trace the data being written",
  "3. THIRD: Look for JSON structure hints in LLM prompts, JSON.parse usage or data "
    ++ "transformations",
  "4. FOURTH: If the artifact is read and validated elsewhere, check the validation code for "
    ++ "schema hints",
  "",
  "OUTPUT REQUIREMENTS:",
  "- The schema must be valid JSON Schema Draft-07",
  "- The schema must include \"$schema\": \"http://json-schema.org/draft-07/schema#\"",
  "- The schema must include \"type\", \"properties\" and \"required\"",
  "- The example must be realistic data that validates against the schema",
  "- The reasoning must explain your analysis steps",
  "",
  "Respond with a JSON object of exactly this structure:",
  "\x7b",
  "  \"schema\": \x7b <valid JSON Schema Draft-07> \x7d,",
  "  \"example\": \x7b <realistic example data> \x7d,",
  "  \"reasoning\": \"<step-by-step explanation of how you determined the schema>\"",
  "\x7d"]

def workedExample : Json :=
  let text : Json := .object [("type", .ofString "string")]
  .object [
    ("schema", .object [
      ("$schema", .ofString "http://json-schema.org/draft-07/schema#"),
      ("type", .ofString "object"),
      ("required", .arr [.ofString "name", .ofString "email", .ofString "preferences"]),
      ("properties", .object [
        ("name", text),
        ("email", .object [("type", .ofString "string"), ("format", .ofString "email")]),
        ("preferences", .object [
          ("type", .ofString "object"),
          ("properties", .object [("theme", .object [("type", .ofString "string"),
            ("enum", .arr [.ofString "light", .ofString "dark"])])])])])]),
    ("example", .object [
      ("name", .ofString "Jane Doe"),
      ("email", .ofString "jane@example.com"),
      ("preferences", .object [("theme", .ofString "dark")])]),
    ("reasoning", .ofString
      ("Found the io.writeArtifact call with an inline object literal. Traced property "
        ++ "types from the object structure. Added format: email based on the property name."))]

def userPrompt (code : Text) (w : ArtifactWrite) : Text := Text.join (Text.ofString "\n") [
  "## Task Source Code",
  "",
  "```javascript",
  code,
  "```",
  "",
  "## Target Artifact",
  Text.ofString "- Filename: " ++ w.fileName,
  Text.ofString "- Written in stage: " ++ w.stage,
  "",
  "## Worked Example",
  "",
  "For a task that writes \"user-profile.json\" with code like:",
  "```javascript",
  "await io.writeArtifact(\"user-profile.json\", JSON.stringify(\x7b",
  "  name: user.name,",
  "  email: user.email,",
  "  preferences: \x7b theme: \"dark\" \x7d",
  "\x7d));",
  "```",
  "",
  "The correct output is:",
  workedExample.prettyAscii,
  "",
  "## Your Task",
  "",
  Text.ofString ("Analyze the source code and produce the schema, example and reasoning for the "
    ++ "artifact \"")
    ++ w.fileName ++ Text.ofString "\" written in stage \"" ++ w.stage ++ Text.ofString "\"."]

end DeducedSchema

def deductionRequest (model : Chat.Model) (code : Text) (w : ArtifactWrite) : Chat.Request where
  provider := model.provider
  model := some model.name
  temperature := .int 0
  responseFormat := .object [("type", .ofString "json_object")]
  messages := Chat.promptMessages DeducedSchema.systemPrompt (DeducedSchema.userPrompt code w)

/-- The members of a reply's object, if they are what they should be. -/
def DeducedSchema.ofContent? (content : Json) : Option DeducedSchema := do
  let schema ← content.get? "schema"
  let sample ← content.get? "example"
  let reasoning ← (content.get? "reasoning").bind Json.str?
  if schema.obj?.isSome && (sample.obj?.isSome || sample.arr?.isSome) then
    some { schema, sample, reasoning }
  else none

/-- Accepts a schema with its example, and registers the schema. -/
def DeducedSchema.check (d : DeducedSchema) (fileName : Text) (registry : Schema.Registry) :
    Except DeductionError DeducedSchema × Schema.Registry :=
  match registry.compile d.schema with
  | (.error (.invalid m), registry) => (.error (.badSchema fileName m), registry)
  | (.error .notAnObject, registry) => (.error (.wrongShape fileName), registry)
  | (.error (.obstacle o), registry) => (.error (.obstacle o), registry)
  | (.ok v, registry) =>
    match v.violations d.sample with
    | .error o => (.error (.obstacle o), registry)
    | .ok [] => (.ok d, registry)
    | .ok vs => (.error (.badExample fileName vs), registry)

def DeducedSchema.ofReply (reply : Chat.Reply) (fileName : Text) (registry : Schema.Registry) :
    Except DeductionError DeducedSchema × Schema.Registry :=
  match reply with
  | .failed f => (.error (.chat f), registry)
  | .nothing | .contentless => (.error (.noResponse fileName), registry)
  | .response content =>
    match content with
    | .obj _ =>
      match DeducedSchema.ofContent? content with
      | some d => d.check fileName registry
      | none => (.error (.wrongShape fileName), registry)
    | _ => (.error (.noObject fileName), registry)

def deduce {σ : Type} (client : Chat.Client σ) (model : Chat.Model) (code : Text)
    (w : ArtifactWrite) (registry : Schema.Registry) (state : σ) :
    Except DeductionError DeducedSchema × Schema.Registry × σ :=
  let (reply, state) := client (deductionRequest model code w) state
  let (result, registry) := DeducedSchema.ofReply reply w.fileName registry
  (result, registry, state)

end TaskContract
