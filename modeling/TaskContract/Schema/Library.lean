import TaskContract.Schema.Metaschema
import TaskContract.Schema.Uri
import TaskContract.Schema.Violation

/-!
# Schemas by their identifiers

The schemas that references can reach: the document itself, each part of it that has an identifier
of its own, and the schema of schemas. A fragment that is not a path names a part by its anchor.
-/

namespace TaskContract.Schema

/-- Schemas by identifier, and parts of them by identifier and anchor. -/
structure Library where
  documents : List (Text × Json)
  anchors : List ((Text × Text) × Json)

def dropHashes (t : Text) : Text :=
  (t.reverse.dropWhile fun c => c = CodePoint.ofChar '#').reverse

/-- The identifier that a schema gives itself, if it does. One beside a reference does not count,
and one that is a mere fragment is an anchor. -/
def identifier? (schema : Json) : Option Text :=
  match schema.get? "$ref", schema.get? "$id" with
  | none, some (.str id) =>
    if id.head? = some (CodePoint.ofChar '#') then none else some (dropHashes id)
  | _, _ => none

def anchor? (schema : Json) : Option Text :=
  match schema.get? "$id" with
  | some (.str (c :: name)) => if c = '#' then some name else none
  | _ => none

def schemaKeywords : List Text :=
  ["additionalItems", "additionalProperties", "contains", "else", "if", "not", "propertyNames",
    "then"].map Text.ofString

def schemaArrayKeywords : List Text := ["allOf", "anyOf", "oneOf"].map Text.ofString

def schemaObjectKeywords : List Text :=
  ["definitions", "patternProperties", "properties"].map Text.ofString

/-- The schemas directly within a schema. -/
def subschemas : Json → List Json
  | .obj ms =>
    ms.flatMap fun (k, v) =>
      if schemaKeywords.contains k then [v]
      else if schemaArrayKeywords.contains k then v.arr?.getD []
      else if schemaObjectKeywords.contains k then (v.obj?.getD []).map Prod.snd
      else if k = "items" then
        match v with
        | .arr items => items
        | v => [v]
      else if k = "dependencies" then
        match v with
        | .obj ((k, .obj d) :: rest) => ((k, Json.obj d) :: rest).map Prod.snd
        | _ => []
      else []
  | _ => []

/-- Adds a schema and all within it, each under its own identifier. -/
def Library.add : (depth : Nat) → Text → Json → Library → Library
  | 0, _, _, lib => lib
  | depth + 1, base, schema, lib =>
    let (base, lib) := match identifier? schema with
      | some id =>
        let uri := Uri.join base id
        (uri, { lib with documents := (uri, schema) :: lib.documents })
      | none => (base, lib)
    let lib := match anchor? schema with
      | some name => { lib with anchors := ((base, name), schema) :: lib.anchors }
      | none => lib
    (subschemas schema).foldl (fun lib s => lib.add depth base s) lib

def Library.ofDocument (schema : Json) (depth : Nat) : Library :=
  let uri := (identifier? schema).getD []
  let lib : Library := { documents := [(draft07, metaschema)], anchors := [] }
  let lib := Library.add depth uri schema lib
  { lib with documents := (uri, schema) :: lib.documents }

/-- A schema that a reference leads to, and the identifier that references in it are meant in. -/
structure Target where
  schema : Json
  base : Text

/-- Does the way from a schema lead to a schema again? -/
def leadsToSchema (contents : Json) : List Text → Bool
  | [] => true
  | s :: rest =>
    if (s = "items" || s = "dependencies") && contents.obj?.isSome then true
    else if schemaKeywords.contains s then leadsToSchema contents rest
    else if schemaArrayKeywords.contains s || schemaObjectKeywords.contains s then
      match rest with
      | _ :: rest' => leadsToSchema contents rest'
      | [] => false
    else false

def unescapeStep : Text → Text
  | a :: b :: rest =>
    if a = '~' && b = '1' then CodePoint.ofChar '/' :: unescapeStep rest
    else if a = '~' && b = '0' then CodePoint.ofChar '~' :: unescapeStep rest
    else a :: unescapeStep (b :: rest)
  | t => t

/-- Follows the steps of a pointer. `lost` is what a step that leads nowhere comes to. -/
def followPointer (lost : Obstacle) :
    List Text → (way : List Text) → Target → Except Obstacle Target
  | [], _, t => .ok t
  | segment :: rest, way, t =>
    let found : Except Obstacle Json :=
      match t.schema with
      | .arr items =>
        if !segment.isEmpty && segment.all CodePoint.isDigit then
          match items[Text.digitsValue segment]? with
          | some v => .ok v
          | none => .error lost
        else .error (.notAnIndex segment)
      | .obj ms =>
        match Members.get? (unescapeStep segment) ms with
        | some v => .ok v
        | none => .error lost
      | .str _ => .error (.notAnIndex segment)
      | _ => .error .unusable
    match found with
    | .error e => .error e
    | .ok v =>
      let way := way ++ [unescapeStep segment]
      if leadsToSchema v way then
        match identifier? v with
        | some id => followPointer lost rest [] { schema := v, base := Uri.join t.base id }
        | none => followPointer lost rest way { schema := v, base := t.base }
      else followPointer lost rest way { schema := v, base := t.base }

def Library.resolve (lib : Library) (base reference : Text) : Except Obstacle Target :=
  let (uri, fragment) := match reference with
    | c :: rest => if c = '#' then (base, rest) else Uri.defragment (Uri.join base reference)
    | [] => Uri.defragment (Uri.join base reference)
  match lib.documents.lookup uri with
  | none => .error (.unknownDocument reference)
  | some document =>
    match fragment with
    | [] => .ok { schema := document, base := uri }
    | c :: rest =>
      if c = '/' then
        followPointer (.nowhere fragment document.display)
          (Text.splitOn '/' (Uri.unquote rest)) [] { schema := document, base := uri }
      else
        match lib.anchors.lookup (uri, fragment) with
        | some schema => .ok { schema, base := uri }
        | none => .error (.noAnchor fragment document.display)

end TaskContract.Schema
