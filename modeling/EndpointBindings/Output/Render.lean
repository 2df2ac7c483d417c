import EndpointBindings.Node.Validator
import EndpointBindings.Route.Table

/-!
# Generated files

In single-file mode everything is in `endpoints.ts`: the validators of the component schemas, the
endpoints that fetch, the endpoints that change something, a table of each by path, and the client.

In file-based mode `schemas.ts` has the validators of the component schemas, and each route has a
file that declares its endpoints under their verbs.  A route file imports the component validators
that its endpoints refer to.

Every declaration stands between empty lines.  Text of the document enters only as a literal, as a
name made from it, or in the line that names the route of a route file.
-/

namespace EndpointBindings

open TypeScript

/-! ## Options

Where generated source goes, and whether it is one file or is divided.
-/

/-- How source is divided into files. -/
inductive OutputMode where
  | singleFile
  | fileBased
deriving DecidableEq, Repr, Inhabited

namespace OutputMode

/-- The directory for a mode when none is given. -/
def defaultOutDir : OutputMode → String
  | .singleFile => "src"
  | .fileBased => "src/routes"

/-- The name of a mode. -/
def text : OutputMode → String
  | .singleFile => "single-file"
  | .fileBased => "file-based"

/-- The mode that a text names. -/
def ofText? : String → Option OutputMode
  | "single-file" => some .singleFile
  | "file-based" => some .fileBased
  | _ => none

end OutputMode

/-- What a caller may choose. -/
structure Options where
  outDir? : Option String := none
  mode : OutputMode := .singleFile
  /-- The module from which generated source takes the client. -/
  clientModule : String := "./createApi"
deriving Repr, Inhabited

/-- The directory that files are written to. -/
def Options.outDir (o : Options) : String := o.outDir?.getD o.mode.defaultOutDir

/-! ## Declarations -/

/-- A file to be written below the output directory. -/
structure SourceFile where
  path : String
  contents : String
deriving DecidableEq, Repr

namespace Api

/-- The names of the components that generated source declares. -/
def known (api : Api) : List String := api.schemas.map (·.1)

/-- The declarations of the component validators. -/
def schemaDeclarations (api : Api) : List String :=
  api.schemas.map fun (name, node) =>
    "export const " ++ schemaIdent name ++ " = " ++ node.emit api.known true ++ ";"

end Api

/-- A member of an endpoint's declaration, when there is a node for it. -/
def validatorLine (known : List String) (key : String) : Option Node → List Step
  | none => []
  | some n => [.line (key ++ ": " ++ n.emit known true ++ ",")]

/-- The declaration of an endpoint; without a response its validator accepts nothing returned. -/
def endpointDeclaration (known : List String) (binding : String) (e : Endpoint) : String :=
  let response := match e.response with
    | some n => n.emit known true
    | none => "z.void()"
  layOut [.block (binding ++ " = createApiEndpoint(\x7b") "\x7d);" (
    [.line ("method: '" ++ e.verb.text ++ "',"), .line ("response: " ++ response ++ ",")]
      ++ validatorLine known "body" e.body
      ++ validatorLine known "query" e.queryNode)]

/-! ## Common parts of files -/

/-- The first line of every file. -/
def banner : String := "// Generated by apity. Do not edit by hand.\n"

/-- The line that takes names from a module. -/
def importLine (names : List String) (module : String) : String :=
  "import \x7b " ++ Text.join ", " names ++ " \x7d from " ++ literal module ++ ";\n"

/-- Declarations, each after an empty line. -/
def spaced (declarations : List String) : String :=
  String.join (declarations.map fun d => "\n" ++ d ++ "\n")

/-! ## One file -/

/-- The endpoints of a route that fetch, or those that do not. -/
def ofKind (fetches : Bool) (es : Endpoints) : List Endpoint :=
  (es.map (·.2)).filter (·.verb.isFetch = fetches)

/-- The declarations of one kind of endpoint, in the order of the routes. -/
def Api.declarations (api : Api) (fetches : Bool) : List String :=
  api.routes.flatMap fun (path, es) =>
    (ofKind fetches es).map fun e =>
      endpointDeclaration api.known ("const " ++ e.name path) e

/-- The entry of a path in a table of endpoints; paths without endpoints have none. -/
def groupLine (fetches : Bool) (path : String) (es : Endpoints) : String :=
  match ofKind fetches es with
  | [] => ""
  | group =>
    "\n  " ++ literal path ++ ": [" ++ Text.join ", " (group.map (·.name path)) ++ "],"

/-- A table of one kind of endpoints by path. -/
def Api.endpointMap (api : Api) (binding : String) (fetches : Bool) : String :=
  "\nexport const " ++ binding ++ " = \x7b"
    ++ String.join (api.routes.map fun (path, es) => groupLine fetches path es)
    ++ "\n\x7d as const;\n"

/-- The client, with its address and both tables. -/
def Api.client (api : Api) : String :=
  "\nexport const api = createApi(\x7b\n"
    ++ "  baseUrl: " ++ literal api.baseUrl ++ ",\n"
    ++ "  fetchEndpoints,\n"
    ++ "  mutateEndpoints,\n"
    ++ "\x7d);\n"

/-- The one file of single-file mode. -/
def renderSingleFile (api : Api) (clientModule : String) : SourceFile where
  path := "endpoints.ts"
  contents :=
    banner ++ importLine ["createApi", "createApiEndpoint"] clientModule ++ importLine ["z"] "zod"
      ++ spaced api.schemaDeclarations
      ++ spaced (api.declarations true)
      ++ spaced (api.declarations false)
      ++ api.endpointMap "fetchEndpoints" true
      ++ api.endpointMap "mutateEndpoints" false
      ++ api.client

/-! ## A file for each route -/

/-- The file of the component validators. -/
def renderSchemas (api : Api) : SourceFile where
  path := "schemas.ts"
  contents := banner ++ importLine ["z"] "zod" ++ spaced api.schemaDeclarations

/-- Add the validators of declared components among references, each once. -/
def addImports (known : List String) (imports refs : List String) : List String :=
  refs.foldl (fun imports target =>
    let name := refName target
    let ident := schemaIdent name
    if known.contains name && !imports.contains ident then imports ++ [ident] else imports) imports

/-- The validators that endpoints refer to. -/
def importsOf (known : List String) (es : Endpoints) : List String :=
  es.foldl (fun imports (_, e) => addImports known imports (collectRefsOfAll [] e.nodes)) []

/-- The file of a route. -/
def renderRoute (api : Api) (clientModule path : String) (es : Endpoints) : SourceFile where
  path := routeFileStem path ++ ".ts"
  contents :=
    let imports := importsOf api.known es
    banner ++ "// Route: " ++ path ++ "\n"
      ++ importLine ["createApiEndpoint"] clientModule ++ importLine ["z"] "zod"
      ++ (if imports.isEmpty then "" else importLine imports "./schemas")
      ++ spaced (es.map fun (_, e) =>
        endpointDeclaration api.known ("export const " ++ e.verb.text) e)

/-- The files of an API. -/
def render (api : Api) (options : Options) : List SourceFile :=
  match options.mode with
  | .singleFile => [renderSingleFile api options.clientModule]
  | .fileBased =>
    renderSchemas api ::
      api.routes.map fun (path, es) => renderRoute api options.clientModule path es

end EndpointBindings
