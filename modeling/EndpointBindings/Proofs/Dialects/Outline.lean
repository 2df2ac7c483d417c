import EndpointBindings.Json.Pointer
import EndpointBindings.Route.Table
import EndpointBindings.Schema.Basic
import EndpointBindings.Swagger.Conversion

/-!
# One API in two dialects

An outline is an API without a document: paths and verbs, parameters, bodies and responses, and a
table of schemas.  It is written as a tree in either version, and the versions differ wherever a
schema can stand.

| | Swagger 2 | OpenAPI 3 |
| :-- | :-- | :-- |
| table of schemas | `definitions` | `components`, `schemas` |
| reference | `#/definitions/N` | `#/components/schemas/N` |
| null allowed | `x-nullable` | `nullable` |
| parameter | keywords in the parameter | keywords under `schema` |
| body of an operation | a parameter in `body` | `requestBody` with JSON content |
| body of a path | a parameter of the path | `requestBody` of each operation without its own |
| response | `schema` | JSON content |

What cannot be said the same way in both is kept out by the types: a name is not `x-nullable`, a
parameter does not stand in `body`, the verbs of a path are different ones.
-/

namespace EndpointBindings

/-! ## Outlines -/

/-- A name of a schema or of a property. -/
abbrev OutlineName := { name : String // name ≠ "x-nullable" }

inductive Scalar where
  | null
  | bool (value : Bool)
  | number (value : Number)
  | string (value : String)

/-- The keywords that a parameter may use as well, but for `items`. -/
structure ValueOutline where
  types : Option TypeNames := none
  format : Option String := none
  enumValues : Option (List Scalar) := none
  default : Option Scalar := none
  minimum : Option Number := none
  maximum : Option Number := none
  minLength : Option Nat := none
  maxLength : Option Nat := none
  nullable : Option Bool := none

/-- A schema: its keywords, and a reference by the name of what it refers to. -/
inductive SchemaOutline where
  | mk (value : ValueOutline) (ref : Option OutlineName) (required : Option (List String))
      (description : Option String) (properties : Option (List (OutlineName × SchemaOutline)))
      (items : Option SchemaOutline) (allOf oneOf anyOf : Option (List SchemaOutline))

/-- A parameter that is no body. -/
structure ParameterOutline where
  name : String
  location : { location : String // location ≠ "body" }
  required : Bool
  value : ValueOutline
  items : Option SchemaOutline

structure OperationOutline where
  parameters : List ParameterOutline
  body : Option SchemaOutline
  response : Option SchemaOutline

/-- A path, what its operations share, and its operations.  In a Swagger 2 tree the shared
parameters stand behind the first `place` operations. -/
structure PathOutline where
  path : String
  parameters : List ParameterOutline
  body : Option SchemaOutline
  operations : List (Verb × OperationOutline)
  distinct : (operations.map (·.1)).Nodup
  place : Nat

structure ApiOutline where
  paths : List PathOutline
  schemas : List (OutlineName × SchemaOutline)

/-! ## Writing schemas -/

namespace Version

/-- The keyword that allows null. -/
def nullableKey : Version → String
  | .openApi3 => "nullable"
  | .swagger2 => "x-nullable"

/-- What stands before a schema's name in a reference. -/
def schemaSection : Version → String
  | .openApi3 => "#/components/schemas/"
  | .swagger2 => "#/definitions/"

def reference (v : Version) (name : String) : String :=
  v.schemaSection ++ String.ofList (Json.escape name.toList)

end Version

def Scalar.toJson : Scalar → Json
  | .null => .null
  | .bool b => .bool b
  | .number n => .number n
  | .string s => .string s

/-- The fields that are present, as members. -/
def present (fields : List (String × Option Json)) : List (String × Json) :=
  fields.filterMap fun (key, v) => v.map (key, ·)

/-- The fields that hold no schema. -/
def ValueOutline.fields (v : Version) (o : ValueOutline) : List (String × Option Json) :=
  [("type", o.types.map TypeNames.toJson),
    ("format", o.format.map .string),
    ("enum", o.enumValues.map fun xs => .list (xs.map Scalar.toJson)),
    ("default", o.default.map Scalar.toJson),
    ("minimum", o.minimum.map .number),
    ("maximum", o.maximum.map .number),
    ("minLength", o.minLength.map Json.ofNat),
    ("maxLength", o.maxLength.map Json.ofNat),
    (v.nullableKey, o.nullable.map .bool)]

mutual

/-- The fields of a schema's object. -/
def SchemaOutline.fields (v : Version) : SchemaOutline → List (String × Option Json)
  | ⟨value, ref, required, description, properties, items, allOf, oneOf, anyOf⟩ =>
    value.fields v ++
      [("$ref", ref.map fun name => .string (v.reference name.1)),
        ("required", required.map Json.ofStrings),
        ("description", description.map .string),
        ("properties", namedOutlines v properties),
        ("items", optionalOutline v items),
        ("allOf", listedOutlines v allOf),
        ("oneOf", listedOutlines v oneOf),
        ("anyOf", listedOutlines v anyOf)]

def optionalOutline (v : Version) : Option SchemaOutline → Option Json
  | none => none
  | some o => some (.object (present (o.fields v)))

def listedOutlines (v : Version) : Option (List SchemaOutline) → Option Json
  | none => none
  | some os => some (.list (outlineItems v os))

def namedOutlines (v : Version) : Option (List (OutlineName × SchemaOutline)) → Option Json
  | none => none
  | some ps => some (.object (outlineMembers v ps))

def outlineItems (v : Version) : List SchemaOutline → List Json
  | [] => []
  | o :: os => .object (present (o.fields v)) :: outlineItems v os

def outlineMembers (v : Version) : List (OutlineName × SchemaOutline) → List (String × Json)
  | [] => []
  | (name, o) :: ps => (name.1, .object (present (o.fields v))) :: outlineMembers v ps

end

def SchemaOutline.members (v : Version) (o : SchemaOutline) : List (String × Json) :=
  present (o.fields v)

def SchemaOutline.toJson (v : Version) (o : SchemaOutline) : Json := .object (o.members v)

/-! ## Writing paths -/

namespace ParameterOutline

/-- The keywords of a parameter as a schema. -/
def keywords (p : ParameterOutline) : SchemaOutline :=
  ⟨p.value, none, none, none, none, p.items, none, none, none⟩

/-- What a parameter says beside its keywords. -/
def head (p : ParameterOutline) : List (String × Json) :=
  [("name", .string p.name), ("in", .string p.location.1), ("required", .bool p.required)]

def toJson (v : Version) (p : ParameterOutline) : Json :=
  match v with
  | .swagger2 => .object (p.head ++ p.keywords.members .swagger2)
  | .openApi3 => .object (p.head ++ [("schema", p.keywords.toJson .openApi3)])

end ParameterOutline

def bodyParameter (o : SchemaOutline) : Json :=
  .object [("name", .string "body"), ("in", .string "body"), ("required", .bool true),
    ("schema", o.toJson .swagger2)]

def outlineContent (o : SchemaOutline) : Json :=
  .object [("application/json", .object [("schema", o.toJson .openApi3)])]

/-- Parameters and a body as a Swagger 2 list of parameters. -/
def swaggerParameters (ps : List ParameterOutline) (body : Option SchemaOutline) : List Json :=
  ps.map (·.toJson .swagger2) ++ body.toList.map bodyParameter

def responseMembers (v : Version) (response : Option SchemaOutline) : List (String × Json) :=
  match response with
  | none => []
  | some o =>
    [("200", .object (("description", .string "") ::
      match v with
      | .swagger2 => [("schema", o.toJson .swagger2)]
      | .openApi3 => [("content", outlineContent o)]))]

/-- The tree of an operation of a path that shares a body. -/
def OperationOutline.toJson (v : Version) (shared : Option SchemaOutline)
    (o : OperationOutline) : Json :=
  match v with
  | .swagger2 => .object [
      ("parameters", .list (swaggerParameters o.parameters o.body)),
      ("responses", .object (responseMembers .swagger2 o.response))]
  | .openApi3 => .object (
      [("parameters", .list (o.parameters.map (·.toJson .openApi3)))] ++
      (match o.body <|> shared with
        | none => []
        | some body => [("requestBody", .object [("content", outlineContent body)])]) ++
      [("responses", .object (responseMembers .openApi3 o.response))])

def Verb.key : Verb → String
  | .get => "get"
  | .put => "put"
  | .post => "post"
  | .delete => "delete"
  | .options => "options"
  | .head => "head"
  | .patch => "patch"
  | .trace => "trace"

namespace PathOutline

/-- Operations under the keys of their verbs. -/
def underKeys (write : OperationOutline → Json) (ops : List (Verb × OperationOutline)) :
    List (String × Json) :=
  ops.map fun e => (e.1.key, write e.2)

/-- What the operations of a path share, in a Swagger 2 tree; absent when there is nothing. -/
def swaggerShared (p : PathOutline) : List (String × Json) :=
  match swaggerParameters p.parameters p.body with
  | [] => []
  | shared => [("parameters", .list shared)]

/-- The tree of a path. -/
def toJson (v : Version) (p : PathOutline) : Json :=
  match v with
  | .swagger2 =>
    let written := underKeys (·.toJson .swagger2 p.body)
    .object (written (p.operations.take p.place) ++ p.swaggerShared ++
      written (p.operations.drop p.place))
  | .openApi3 =>
    .object (("parameters", .list (p.parameters.map (·.toJson .openApi3))) ::
      underKeys (·.toJson .openApi3 p.body) p.operations)

end PathOutline

/-! ## Writing documents -/

def outlineInfo : Json := .object [("title", .string ""), ("version", .string "")]

/-- The members of an OpenAPI 3 document with paths and schemas. -/
def treeOf (paths schemas : List (String × Json)) : List (String × Json) :=
  [("openapi", .string "3.0.0"), ("info", outlineInfo), ("paths", .object paths),
    ("components", .object [("schemas", .object schemas)])]

/-- The tree of an API. -/
def ApiOutline.toJson (v : Version) (o : ApiOutline) : Json :=
  let paths := o.paths.map fun p => (p.path, p.toJson v)
  let schemas := outlineMembers v o.schemas
  match v with
  | .swagger2 => .object [
      ("swagger", .string "2.0"), ("info", outlineInfo), ("paths", .object paths),
      ("definitions", .object schemas)]
  | .openApi3 => .object (treeOf paths schemas)

end EndpointBindings
