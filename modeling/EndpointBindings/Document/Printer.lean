import EndpointBindings.Document.Spec
import EndpointBindings.Node.Basic
import EndpointBindings.Route.Table
import EndpointBindings.Schema.Basic

/-!
# Writing nodes, APIs and documents

Every field is written, an absent one as null, in the order in which a record lists them.
-/

namespace EndpointBindings

/-! ## Nodes

A node is written as an object of its kind, its mark for null and its description.  The kind is an
object again, with the kind's name and, for the kinds that hold something, its value.
-/

def StringRules.toJson (r : StringRules) : Json :=
  .object [
    ("enumValues", .ofStrings r.enumValues),
    ("format", .orNull .string r.format),
    ("minLength", .orNull .ofNat r.minLength),
    ("maxLength", .orNull .ofNat r.maxLength)]

def NumberRules.toJson (r : NumberRules) : Json :=
  .object [
    ("integer", .bool r.isInteger),
    ("minimum", .orNull .number r.minimum),
    ("maximum", .orNull .number r.maximum)]

/-- The object of a kind that holds nothing. -/
def bareKind (name : String) : Json := .object [("kind", .string name)]

/-- The object of a kind that holds a value. -/
def kindWith (name : String) (value : Json) : Json :=
  .object [("kind", .string name), ("value", value)]

mutual

def Node.toJson : Node → Json
  | ⟨kind, nullable, description⟩ => .object [
      ("kind", kind.toJson),
      ("nullable", .bool nullable),
      ("description", .orNull .string description)]

def Kind.toJson : Kind → Json
  | .ref target => kindWith "ref" (.string target)
  | .allOf members => kindWith "allOf" (.list (nodesToJson members))
  | .oneOf members => kindWith "oneOf" (.list (nodesToJson members))
  | .nullable inner => kindWith "nullable" inner.toJson
  | .string rules => kindWith "string" rules.toJson
  | .number rules => kindWith "number" rules.toJson
  | .boolean => bareKind "boolean"
  | .null => bareKind "null"
  | .array none => kindWith "array" .null
  | .array (some items) => kindWith "array" items.toJson
  | .object properties required => kindWith "object" (.object [
      ("properties", .object (propertiesToJson properties)),
      ("required", .ofStrings required)])
  | .any => bareKind "any"

def nodesToJson : List Node → List Json
  | [] => []
  | n :: ns => n.toJson :: nodesToJson ns

def propertiesToJson : List (String × Node) → List (String × Json)
  | [] => []
  | (name, n) :: ps => (name, n.toJson) :: propertiesToJson ps

end

/-! ## Routes -/

def NamedNode.toJson (p : NamedNode) : Json :=
  .object [
    ("name", .string p.name),
    ("schema", p.node.toJson),
    ("required", .bool p.required)]

def Endpoint.toJson (e : Endpoint) : Json :=
  .object [
    ("method", .string e.verb.text),
    ("response", .orNull Node.toJson e.response),
    ("body", .orNull Node.toJson e.body),
    ("query", .list (e.query.map NamedNode.toJson)),
    ("pathParams", .list (e.pathParams.map NamedNode.toJson))]

def endpointsToJson (es : Endpoints) : Json :=
  .object (es.map fun (verb, e) => (verb.text, e.toJson))

def routesToJson (routes : RouteTable) : Json :=
  .object (Ordered.mapValues endpointsToJson routes)

def Api.toJson (api : Api) : Json :=
  .object [
    ("baseUrl", .string api.baseUrl),
    ("schemas", .object (propertiesToJson api.schemas)),
    ("routes", routesToJson api.routes)]

/-! ## The typed view -/

def Info.toJson (i : Info) : Json :=
  .object [
    ("title", .string i.title),
    ("version", .string i.version),
    ("description", .orNull .string i.description)]

def Server.toJson (s : Server) : Json :=
  .object [("url", .string s.url), ("description", .orNull .string s.description)]

/-- The shared parameters come first, then the other entries in their order. -/
def PathItem.toJson (p : PathItem) : Json :=
  .object (("parameters", .list p.parameters) :: p.entries)

def componentsToJson (schemas : List (String × Schema)) : Json :=
  .object [("schemas", .object (Schema.namedToJson schemas))]

def Spec.toJson (s : Spec) : Json :=
  .object [
    ("openapi", .string s.openapi),
    ("info", s.info.toJson),
    ("paths", .object (Ordered.mapValues PathItem.toJson s.paths)),
    ("components", .orNull componentsToJson s.components),
    ("servers", .list (s.servers.map Server.toJson))]

end EndpointBindings
