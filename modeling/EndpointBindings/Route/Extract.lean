import EndpointBindings.Document.Operation
import EndpointBindings.Document.Spec
import EndpointBindings.Node.Classify
import EndpointBindings.Route.Table
import EndpointBindings.Schema.Composition
import EndpointBindings.Swagger.Conversion

/-!
# Extracting routes

Every path of a document becomes a route, and every key of it that names a verb and holds an
operation becomes an endpoint.  A response counts under status `200`, and bodies count in their JSON
content; references in their place are passed over.

Parameters of the path come before those of the operation.  One with the name and location of an
earlier one takes its place.  References to parameters and malformed parameters are passed over.

Schemas are composed before they become nodes, so that an endpoint's node is never a bare list of
members.
-/

namespace EndpointBindings

/-- The path of a route: braces around a parameter become brackets. -/
def normalizePath (path : String) : String :=
  String.ofList (path.toList.map fun c => if c = '{' then '[' else if c = '}' then ']' else c)

/-- The node of a schema in a document. -/
def nodeIn (doc : Document) (s : Schema) : Node := (s.compose doc.raw).toNode

/-- A parameter that takes effect by itself: it is no reference and can be read. -/
def readParameter? (v : Json) : Option Parameter :=
  if v.isReference then none else Parameter.ofJson? v

/-- A parameter takes the place of the one with its name and location, or comes last. -/
def placeParameter (ps : List Parameter) (p : Parameter) : List Parameter :=
  match ps with
  | [] => [p]
  | q :: qs =>
    if q.name = p.name ∧ q.location = p.location then p :: qs else q :: placeParameter qs p

/-- The parameters that take effect. -/
def effectiveParameters (shared own : List Json) : List Parameter :=
  ((shared ++ own).filterMap readParameter?).foldl placeParameter []

/-- A parameter's name and node; without a schema it may have any value. -/
def namedNodeIn (doc : Document) (p : Parameter) : NamedNode where
  name := p.name
  node := (p.schema.map (nodeIn doc)).getD .any
  required := p.required

/-- The parameters at one location. -/
def parametersAt (doc : Document) (location : String) (ps : List Parameter) : List NamedNode :=
  (ps.filter (·.location = location)).map (namedNodeIn doc)

/-- The node of a body's or response's JSON content, when it stands there itself. -/
def contentNode (doc : Document) (content : Option (RefOr Content)) : Option Node :=
  content.bind RefOr.item? |>.bind Content.jsonSchema? |>.map (nodeIn doc)

/-- The endpoint of an operation. -/
def endpointOf (doc : Document) (verb : Verb) (shared : List Json) (op : Operation) : Endpoint :=
  let parameters := effectiveParameters shared op.parameters
  { verb
    response := contentNode doc (Ordered.get? op.responses "200")
    body := contentNode doc op.requestBody
    query := parametersAt doc "query" parameters
    pathParams := parametersAt doc "path" parameters }

/-- The endpoint of an entry of a path item, when the entry is an operation. -/
def endpointAt? (doc : Document) (shared : List Json) (entry : String × Json) :
    Option (Verb × Endpoint) := do
  let verb ← Verb.ofKey? entry.1
  let op ← Operation.ofJson? entry.2
  return (verb, endpointOf doc verb shared op)

/-- The endpoints of a path item. -/
def endpointsOf (doc : Document) (item : PathItem) : Endpoints :=
  Ordered.ofWrites (item.entries.filterMap (endpointAt? doc item.parameters))

/-- The routes of a document. -/
def routesOf (doc : Document) : RouteTable :=
  Ordered.ofWrites (doc.spec.paths.map fun (path, item) =>
    (normalizePath path, endpointsOf doc item))

/-- The API that a document describes. -/
def Document.api (doc : Document) : Api where
  baseUrl := doc.spec.baseUrl
  schemas := Ordered.mapValues (nodeIn doc) doc.spec.componentSchemas
  routes := routesOf doc

/-- The API of a tree of either version. -/
def Api.ofJson (v : Json) : Except Failure Api := do
  return (← Document.ofJson (← toOpenApi3 v)).api

end EndpointBindings
