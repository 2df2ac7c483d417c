import EndpointBindings.Document.Spec
import EndpointBindings.Schema.Basic

/-!
# Operations

What an operation says about its parameters, its request body and its responses.  Each is a record;
of its fields only those are kept that routes are made of.

A body or a response may be a reference instead, which is an object with a string under `$ref`, or a
list of one string.  References are told apart but not followed.
-/

namespace EndpointBindings

/-- A reference or an item in its place. -/
inductive RefOr (α : Type) where
  | ref (target : String)
  | item (value : α)
deriving DecidableEq, Repr

namespace RefOr

/-- The text of a reference. -/
def target? : Json → Option String
  | .object ms => Json.field? ms "$ref" Json.string?
  | .list [.string target] => some target
  | _ => none

/-- A reference where the tree is one, and else an item. -/
def ofJson? {α : Type} (read : Json → Option α) (v : Json) : Option (RefOr α) :=
  match target? v with
  | some target => some (.ref target)
  | none => (read v).map .item

/-- The item, if this is one. -/
def item? {α : Type} : RefOr α → Option α
  | .ref _ => none
  | .item a => some a

end RefOr

/-- The schemas of a body by content type; a type may have none. -/
abbrev Content := List (String × Option Schema)

/-- The schema of a content type. -/
def readMediaType? (v : Json) : Option (Option Schema) := do
  let r ← v.record? ["schema"]
  return Json.field? r "schema" Schema.slot?

/-- The schema of the JSON content. -/
def Content.jsonSchema? (c : Content) : Option Schema := (Ordered.get? c "application/json").join

/-- The content of a request body. -/
def readRequestBody? (v : Json) : Option Content := do
  let r ← v.record? ["description", "content", "required"]
  return Json.table r "content" readMediaType?

/-- The content of a response. -/
def readResponse? (v : Json) : Option Content := do
  let r ← v.record? ["description", "content"]
  return Json.table r "content" readMediaType?

/-- A parameter: its name, where it stands, and what it may be. -/
structure Parameter where
  name : String
  location : String
  required : Bool := false
  schema : Option Schema := none
deriving Inhabited

/-- A parameter needs a name and a location. -/
def Parameter.ofJson? (v : Json) : Option Parameter := do
  let r ← v.record? ["name", "in", "description", "required", "schema"]
  return {
    name := ← Json.field? r "name" Json.string?
    location := ← Json.field? r "in" Json.string?
    required := (Json.field? r "required" Json.bool?).getD false
    schema := Json.field? r "schema" Schema.slot? }

/-- An operation.  Parameters stay trees, references among them. -/
structure Operation where
  parameters : List Json := []
  requestBody : Option (RefOr Content) := none
  responses : List (String × RefOr Content) := []

namespace Operation

/-- The fields of an operation, in order. -/
def fields : List String :=
  ["operationId", "summary", "description", "parameters", "requestBody", "responses", "tags"]

/-- An operation is a record. -/
def ofJson? (v : Json) : Option Operation := do
  let r ← v.record? fields
  return {
    parameters := (Json.field? r "parameters" Json.list?).getD []
    requestBody := Json.field? r "requestBody" (RefOr.ofJson? readRequestBody?)
    responses := Json.table r "responses" (RefOr.ofJson? readResponse?) }

end Operation

end EndpointBindings
