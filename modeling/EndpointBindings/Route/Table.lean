import EndpointBindings.Node.Basic
import EndpointBindings.Text.Split
import EndpointBindings.TypeScript.Basic

/-!
# Routes

A route is a path with its endpoints, one for each verb.  An endpoint carries what generated source
needs: the nodes of its response and its body, and its query and path parameters in the order in
which they are declared.
-/

namespace EndpointBindings

/-! ## Verbs

The eight verbs that a path item can carry.  A key names a verb in any letter case.  Only `GET`
fetches; every other verb changes something.
-/

/-- The verbs. -/
inductive Verb where
  | get | put | post | delete | options | head | patch | trace
deriving DecidableEq, Repr, Inhabited

namespace Verb

/-- The verb in capitals, as requests and generated source write it. -/
def text : Verb → String
  | .get => "GET"
  | .put => "PUT"
  | .post => "POST"
  | .delete => "DELETE"
  | .options => "OPTIONS"
  | .head => "HEAD"
  | .patch => "PATCH"
  | .trace => "TRACE"

/-- The keys that name verbs, in lower case. -/
def keys : List String := ["get", "put", "post", "delete", "options", "head", "patch", "trace"]

/-- The verb that a lower-case key names. -/
def ofLowerKey? : String → Option Verb
  | "get" => some .get
  | "put" => some .put
  | "post" => some .post
  | "delete" => some .delete
  | "options" => some .options
  | "head" => some .head
  | "patch" => some .patch
  | "trace" => some .trace
  | _ => none

/-- The verb that a key names. -/
def ofKey? (key : String) : Option Verb := ofLowerKey? (Text.lowerAscii key)

/-- Whether requests with the verb only fetch. -/
def isFetch (v : Verb) : Bool := v = .get

end Verb

/-! ## Endpoints -/

/-- A parameter with the node of its values. -/
structure NamedNode where
  name : String
  node : Node
  required : Bool := false

/-- What is known about one verb of one path. -/
structure Endpoint where
  verb : Verb
  /-- The node of a successful response; absent when it has no content. -/
  response : Option Node := none
  body : Option Node := none
  query : List NamedNode := []
  pathParams : List NamedNode := []

/-- The endpoints of a path. -/
abbrev Endpoints := List (Verb × Endpoint)

/-- Paths and their endpoints, in document order. -/
abbrev RouteTable := List (String × Endpoints)

/-- An API as far as source is generated from it. -/
structure Api where
  baseUrl : String := ""
  schemas : List (String × Node) := []
  routes : RouteTable := []

namespace Endpoint

/-- The names of the path parameters. -/
def pathParamNames (e : Endpoint) : List String := e.pathParams.map (·.name)

/-- The query parameters as one object; absent when there are none. -/
def queryNode (e : Endpoint) : Option Node :=
  match e.query with
  | [] => none
  | query =>
    some (.object (Ordered.ofWrites (query.map fun p => (p.name, p.node)))
      ((query.filter (·.required)).map (·.name)))

/-- The nodes that the endpoint's source is made of, in the order in which it uses them. -/
def nodes (e : Endpoint) : List Node :=
  e.response.toList ++ e.body.toList ++ e.queryNode.toList

end Endpoint

/-- The number of endpoints. -/
def Api.endpointCount (api : Api) : Nat :=
  api.routes.foldr (fun route n => route.2.length + n) 0

/-! ## Names of endpoints and of route files

An endpoint's name is made of its verb, the path without parameters and slashes, and the names of
its path parameters.  The names are the declared ones; where none are declared, they are those
between brackets in the path.

Different routes may have the same name, and so may the files of different routes.
-/

/-- What of a path stands outside brackets, which may be nested `depth` deep so far. -/
def outsideBrackets (depth : Nat) : List Char → List Char
  | [] => []
  | c :: cs =>
    if c = '[' then outsideBrackets (depth + 1) cs
    else if depth = 0 then c :: outsideBrackets 0 cs
    else if c = ']' then outsideBrackets (depth - 1) cs
    else outsideBrackets depth cs

/-- The text before the first closing bracket, when there is one. -/
def beforeBracket? (cs : List Char) : Option (List Char) :=
  if cs.contains ']' then some (cs.takeWhile (· ≠ ']')) else none

/-- The names between brackets of a path. -/
def templateParams (path : String) : List String :=
  ((Text.pieces '[' path.toList).drop 1).filterMap fun piece =>
    (beforeBracket? piece).map String.ofList

/-- The name for a verb, a path and the names of its parameters. -/
def nameOf (verb : Verb) (path : String) (params : List String) : String :=
  let plain := String.ofList ((outsideBrackets 0 path.toList).filter (· ≠ '/'))
  let suffix := if params.isEmpty then "" else "_" ++ Text.join "_" params
  TypeScript.sanitize (verb.text ++ "_" ++ plain ++ suffix)

/-- The name of an endpoint. -/
def Endpoint.name (path : String) (e : Endpoint) : String :=
  nameOf e.verb path (match e.pathParamNames with
    | [] => templateParams path
    | names => names)

/-- A character of a path in a file name. -/
def fileChar (c : Char) : Char :=
  if c = '/' then '.' else if c = '[' ∨ c = ']' then '_' else c

/-- The name of a route's file, without its ending. -/
def routeFileStem (path : String) : String :=
  match path.toList.dropWhile (· = '/') with
  | [] => "index"
  | cs => String.ofList (cs.map fileChar)

end EndpointBindings
