import TaskContract.Json.Value

/-!
# The schema of schemas

The Draft-07 schema that every Draft-07 schema has to fulfil, with its members in the order in
which they are checked.
-/

namespace TaskContract.Schema

/-- The identifier of Draft-07, without its empty fragment. -/
def draft07 : Text := Text.ofString "http://json-schema.org/draft-07/schema"

def metaschema : Json :=
  .object [
    ("$schema", .ofString "http://json-schema.org/draft-07/schema#"),
    ("$id", .ofString "http://json-schema.org/draft-07/schema#"),
    ("title", .ofString "Core schema meta-schema"),
    ("definitions", .object [
      ("schemaArray", .object [
        ("type", .ofString "array"),
        ("minItems", .int 1),
        ("items", .object [("$ref", .ofString "#")])]),
      ("nonNegativeInteger", .object [("type", .ofString "integer"), ("minimum", .int 0)]),
      ("nonNegativeIntegerDefault0", .object [
        ("allOf", .arr [.object [("$ref", .ofString "#/definitions/nonNegativeInteger")],
          .object [("default", .int 0)]])]),
      ("simpleTypes", .object [
        ("enum", .arr [.ofString "array", .ofString "boolean", .ofString "integer",
          .ofString "null", .ofString "number", .ofString "object", .ofString "string"])]),
      ("stringArray", .object [
        ("type", .ofString "array"),
        ("items", .object [("type", .ofString "string")]),
        ("uniqueItems", .bool true),
        ("default", .arr [])])]),
    ("type", .arr [.ofString "object", .ofString "boolean"]),
    ("properties", .object [
      ("$id", .object [("type", .ofString "string"), ("format", .ofString "uri-reference")]),
      ("$schema", .object [("type", .ofString "string"), ("format", .ofString "uri")]),
      ("$ref", .object [("type", .ofString "string"), ("format", .ofString "uri-reference")]),
      ("$comment", .object [("type", .ofString "string")]),
      ("title", .object [("type", .ofString "string")]),
      ("description", .object [("type", .ofString "string")]),
      ("default", .bool true),
      ("readOnly", .object [("type", .ofString "boolean"), ("default", .bool false)]),
      ("examples", .object [("type", .ofString "array"), ("items", .bool true)]),
      ("multipleOf", .object [("type", .ofString "number"), ("exclusiveMinimum", .int 0)]),
      ("maximum", .object [("type", .ofString "number")]),
      ("exclusiveMaximum", .object [("type", .ofString "number")]),
      ("minimum", .object [("type", .ofString "number")]),
      ("exclusiveMinimum", .object [("type", .ofString "number")]),
      ("maxLength", .object [("$ref", .ofString "#/definitions/nonNegativeInteger")]),
      ("minLength", .object [("$ref", .ofString "#/definitions/nonNegativeIntegerDefault0")]),
      ("pattern", .object [("type", .ofString "string"), ("format", .ofString "regex")]),
      ("additionalItems", .object [("$ref", .ofString "#")]),
      ("items", .object [
        ("anyOf", .arr [.object [("$ref", .ofString "#")],
          .object [("$ref", .ofString "#/definitions/schemaArray")]]),
        ("default", .bool true)]),
      ("maxItems", .object [("$ref", .ofString "#/definitions/nonNegativeInteger")]),
      ("minItems", .object [("$ref", .ofString "#/definitions/nonNegativeIntegerDefault0")]),
      ("uniqueItems", .object [("type", .ofString "boolean"), ("default", .bool false)]),
      ("contains", .object [("$ref", .ofString "#")]),
      ("maxProperties", .object [("$ref", .ofString "#/definitions/nonNegativeInteger")]),
      ("minProperties", .object [("$ref", .ofString "#/definitions/nonNegativeIntegerDefault0")]),
      ("required", .object [("$ref", .ofString "#/definitions/stringArray")]),
      ("additionalProperties", .object [("$ref", .ofString "#")]),
      ("definitions", .object [
        ("type", .ofString "object"),
        ("additionalProperties", .object [("$ref", .ofString "#")]),
        ("default", .obj [])]),
      ("properties", .object [
        ("type", .ofString "object"),
        ("additionalProperties", .object [("$ref", .ofString "#")]),
        ("default", .obj [])]),
      ("patternProperties", .object [
        ("type", .ofString "object"),
        ("additionalProperties", .object [("$ref", .ofString "#")]),
        ("propertyNames", .object [("format", .ofString "regex")]),
        ("default", .obj [])]),
      ("dependencies", .object [
        ("type", .ofString "object"),
        ("additionalProperties", .object [
          ("anyOf", .arr [.object [("$ref", .ofString "#")],
            .object [("$ref", .ofString "#/definitions/stringArray")]])])]),
      ("propertyNames", .object [("$ref", .ofString "#")]),
      ("const", .bool true),
      ("enum", .object [("type", .ofString "array"), ("items", .bool true)]),
      ("type", .object [
        ("anyOf", .arr [.object [("$ref", .ofString "#/definitions/simpleTypes")], .object [
            ("type", .ofString "array"),
            ("items", .object [("$ref", .ofString "#/definitions/simpleTypes")]),
            ("minItems", .int 1),
            ("uniqueItems", .bool true)]])]),
      ("format", .object [("type", .ofString "string")]),
      ("contentMediaType", .object [("type", .ofString "string")]),
      ("contentEncoding", .object [("type", .ofString "string")]),
      ("if", .object [("$ref", .ofString "#")]),
      ("then", .object [("$ref", .ofString "#")]),
      ("else", .object [("$ref", .ofString "#")]),
      ("allOf", .object [("$ref", .ofString "#/definitions/schemaArray")]),
      ("anyOf", .object [("$ref", .ofString "#/definitions/schemaArray")]),
      ("oneOf", .object [("$ref", .ofString "#/definitions/schemaArray")]),
      ("not", .object [("$ref", .ofString "#")])]),
    ("default", .bool true)]

end TaskContract.Schema
