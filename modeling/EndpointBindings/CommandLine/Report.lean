import EndpointBindings.Output.Render
import EndpointBindings.Route.Extract
import EndpointBindings.Route.Table

/-!
# What a run reports

The texts of a run: the lines before and after a document is imported, and the two ways in which an
API is shown when it is inspected, in lines and as a document.  `Report` is all that a run leaves
behind besides files.
-/

namespace EndpointBindings.CommandLine

/-- What a run leaves behind besides files: its exit code, its output, and the first line of the
error it ended with. -/
structure Report where
  exitCode : UInt32
  output : String
  error : Option String := none
deriving DecidableEq, Repr

namespace Report

/-- The run succeeded. -/
def success (output : String) : Report := { exitCode := 0, output }

/-- The run failed while doing what it was asked for. -/
def failure (output : String) (error : String) : Report :=
  { exitCode := 1, output, error := some ("Error: " ++ error) }

/-- The arguments were not understood. -/
def misuse : Report := { exitCode := 2, output := "" }

end Report

/-- Lines as text. -/
def unlines (lines : List String) : String := String.join (lines.map (· ++ "\n"))

/-- How many there are of something. -/
def count (n : Nat) : String := intText n

/-! ## Importing -/

/-- The lines before an import. -/
def importOpening (file : String) (options : Options) (verbose : Bool) : List String :=
  ("→ Importing: " ++ file) ::
    if verbose then
      ["  Output: " ++ options.mode.text,
        "  Directory: " ++ options.outDir,
        "  Client module: " ++ options.clientModule]
    else []

/-- The lines between reading and writing. -/
def importParsed (api : Api) : List String :=
  ["✓ Parsed " ++ count api.schemas.length ++ " schemas and " ++ count api.endpointCount
      ++ " endpoints",
    "→ Generating endpoint files..."]

/-- The lines after writing. -/
def importDone (written : List String) (verbose : Bool) : List String :=
  (if verbose then ["", "Generated files:"] ++ written.map ("  📄 " ++ ·) else [])
    ++ ["", "✓ Successfully generated API routes!"]

/-! ## Inspecting -/

/-- A text at the left of a column. -/
def padded (width : Nat) (text : String) : String :=
  text ++ String.ofList (List.replicate (width - text.length) ' ')

/-- A truth value in words. -/
def yesNo (b : Bool) : String := if b then "yes" else "no"

/-- The lines of an endpoint. -/
def endpointLines (verbose : Bool) (path : String) (e : Endpoint) : List String :=
  ("    " ++ padded 7 e.verb.text ++ " " ++ e.name path
      ++ " (" ++ (if e.verb.isFetch then "fetch" else "mutate") ++ ")") ::
    if verbose then
      ["            query: " ++ count e.query.length ++ ", body: " ++ yesNo e.body.isSome
        ++ ", response: " ++ yesNo e.response.isSome]
    else []

/-- The lines of a route. -/
def routeLines (verbose : Bool) (path : String) (es : Endpoints) : List String :=
  ("  • " ++ path) :: es.flatMap fun (_, e) => endpointLines verbose path e

/-- The lines of the component schemas, when there are any. -/
def schemaLines (api : Api) : List String :=
  if api.schemas.isEmpty then []
  else ["", "Schemas:"] ++ (Ordered.keys api.schemas).map ("  • " ++ ·)

/-- An API in lines. -/
def apiLines (verbose : Bool) (api : Api) : List String :=
  ["✓ Parse successful!",
    "",
    "API Definition:",
    "  Base URL: " ++ (if api.baseUrl = "" then "(none)" else api.baseUrl),
    "  Schemas: " ++ count api.schemas.length,
    "  Routes: " ++ count api.routes.length,
    "  Endpoints: " ++ count api.endpointCount,
    "",
    "Routes:"]
    ++ (api.routes.flatMap fun (path, es) => routeLines verbose path es)
    ++ if verbose then schemaLines api else []

/-- An endpoint in the summary of an API. -/
def endpointSummary (path : String) (e : Endpoint) : Json :=
  .object [
    ("method", .string e.verb.text),
    ("name", .string (e.name path)),
    ("fetch", .bool e.verb.isFetch),
    ("pathParams", .ofStrings e.pathParamNames),
    ("query", .ofStrings (e.query.map (·.name))),
    ("hasBody", .bool e.body.isSome),
    ("hasResponse", .bool e.response.isSome)]

/-- A route in the summary of an API. -/
def routeSummary (path : String) (es : Endpoints) : Json :=
  .object [
    ("path", .string path),
    ("endpoints", .list (es.map fun (_, e) => endpointSummary path e))]

/-- The summary of an API. -/
def apiSummary (api : Api) : Json :=
  .object [
    ("baseUrl", .string api.baseUrl),
    ("schemas", .ofStrings (Ordered.keys api.schemas)),
    ("routes", .list (api.routes.map fun (path, es) => routeSummary path es))]

end EndpointBindings.CommandLine
