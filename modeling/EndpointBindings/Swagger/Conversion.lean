import EndpointBindings.Failure
import EndpointBindings.Json.Basic
import EndpointBindings.Route.Table
import EndpointBindings.Swagger.Parameters
import EndpointBindings.Text.Split

/-!
# From Swagger 2 to OpenAPI 3

A Swagger 2 document becomes an OpenAPI 3 document with the same API.  Definitions become component
schemas, host and base path become servers, and body parameters become request bodies; everything
that neither routes nor validators are made of may be left behind.

A body that a path declares for all its operations becomes the request body of each operation that
has none of its own.
-/

namespace EndpointBindings

/-! ## The version of a document

A document is OpenAPI 3 when `openapi` is a string that starts with `3.`.  Another string there is
refused.  Without a string there, the document is Swagger 2 when `swagger` is a string that starts
with `2.`; anything else under that key is refused, and so is a document with neither.
-/

/-- The versions that are read. -/
inductive Version where
  | openApi3
  | swagger2
deriving DecidableEq, Repr

/-- The version that a tree declares. -/
def Version.detect (doc : Json) : Except Failure Version :=
  match (doc.get? "openapi").bind Json.string? with
  | some version =>
    if Text.startsWith "3." version then .ok .openApi3 else .error (.unsupportedOpenApi version)
  | none =>
    match doc.get? "swagger" with
    | some (.string version) =>
      if Text.startsWith "2." version then .ok .swagger2
      else .error (.unsupportedSwagger (.string version))
    | some version => .error (.unsupportedSwagger version)
    | none => .error .noVersion

end EndpointBindings

namespace EndpointBindings.Swagger

/-! ## Keys and references inside schemas

Two things differ between the versions at every depth of a tree: references name other sections,
and null is allowed by `x-nullable` instead of `nullable`.  `modernize` puts both right in a whole
tree.  Afterwards no object has a key `x-nullable` and no reference points to an old section, so
that a second pass finds nothing to do.

`x-nullable` is taken out, which moves the last key of its object into its place, and `nullable` is
then written: in place where the object has it, and else at the end.
-/

/-- The sections that references name, each with its place in OpenAPI 3. -/
def sections : List (String × String) :=
  [("#/definitions/", "#/components/schemas/"),
    ("#/parameters/", "#/components/parameters/"),
    ("#/responses/", "#/components/responses/")]

/-- A reference with its section in the new place. -/
def modernizeRef (target : String) : String :=
  let moved := sections.findSome? fun (old, new) =>
    (Text.dropPrefix? old target).map (new ++ ·)
  moved.getD target

/-- Write `nullable` for `x-nullable` among the members of one object. -/
def renameNullable (ms : List (String × Json)) : List (String × Json) :=
  match Ordered.get? ms "x-nullable" with
  | some v => Ordered.put (Ordered.swapErase ms "x-nullable") "nullable" v
  | none => ms

mutual

/-- A tree with its references and marks of null put right. -/
def modernize : Json → Json
  | .object ms => .object (renameNullable (modernizeMembers ms))
  | .list xs => .list (modernizeItems xs)
  | v => v

def modernizeItems : List Json → List Json
  | [] => []
  | x :: xs => modernize x :: modernizeItems xs

def modernizeMembers : List (String × Json) → List (String × Json)
  | [] => []
  | (key, v) :: ms =>
    let value := match v with
      | .string target => if key = "$ref" then .string (modernizeRef target) else v
      | v => modernize v
    (key, value) :: modernizeMembers ms

end

/-! ## Paths -/

/-- The table of an operation's new members, one old member added. -/
def convertMember (out : List (String × Json)) (key : String) (v : Json) : List (String × Json) :=
  match key with
  | "parameters" =>
    let (parameters, body) := splitParameters v
    let out := Ordered.put out key (.list parameters)
    match body with
    | some body => Ordered.put out "requestBody" body
    | none => out
  | "responses" =>
    Ordered.put out key (match v with
      | .object ms => .object (Ordered.mapValues convertResponse ms)
      | other => other)
  | "consumes" | "produces" | "schemes" => out
  | _ => Ordered.put out key v

/-- An operation, member by member in order. -/
def convertOperation : Json → Json
  | .object ms => .object (ms.foldl (fun out (key, v) => convertMember out key v) [])
  | other => other

/-- Give an operation a request body unless it has one. -/
def withBody (body : Option Json) (operation : Json) : Json :=
  match body, operation with
  | some body, .object ms =>
    if Ordered.has ms "requestBody" then operation else .object (ms ++ [("requestBody", body)])
  | _, operation => operation

/-- A path item.  Its shared parameters come first; taking them out moves the last key into their
place. -/
def convertPathItem : Json → Json
  | .object ms =>
    let (head, body) := match Ordered.get? ms "parameters" with
      | some parameters =>
        let (parameters, body) := splitParameters parameters
        ([("parameters", .list parameters)], body)
      | none => ([], none)
    let rest := (Ordered.swapErase ms "parameters").map fun (key, v) =>
      if Verb.keys.contains key then (key, withBody body (convertOperation v)) else (key, v)
    .object (head ++ rest)
  | other => other

/-! ## Servers -/

/-- A server at an address. -/
def server (url : String) : Json := .object [("url", .string url)]

/-- The schemes that are strings, or `https` when there are none. -/
def schemesOf (doc : Json) : List String :=
  match (((doc.get? "schemes").bind Json.list?).getD []).filterMap Json.string? with
  | [] => ["https"]
  | schemes => schemes

/-- One server per scheme when there is a host; else one for the base path, unless it is empty. -/
def serversOf (doc : Json) : List Json :=
  let basePath := ((doc.get? "basePath").bind Json.string?).getD ""
  match (doc.get? "host").bind Json.string? with
  | some host => (schemesOf doc).map fun scheme => server (scheme ++ "://" ++ host ++ basePath)
  | none => if basePath = "" then [] else [server basePath]

/-! ## Documents -/

/-- A member whose value is a table, with a function applied to each entry. -/
def tableMember (doc : Json) (key : String) (f : Json → Json) : List (String × Json) :=
  match (doc.get? key).bind Json.members? with
  | some ms => [(key, .object (Ordered.mapValues f ms))]
  | none => []

/-- A member under another or the same key, taken as it is. -/
def copiedMember (doc : Json) (source key : String) : List (String × Json) :=
  match doc.get? source with
  | some v => [(key, v)]
  | none => []

/-- A member for a list or table that is not empty. -/
def unlessEmpty {α : Type} (key : String) (write : List α → Json) :
    List α → List (String × Json)
  | [] => []
  | xs => [(key, write xs)]

/-- The reusable parts of a document. -/
def componentsOf (doc : Json) : List (String × Json) :=
  copiedMember doc "definitions" "schemas"
    ++ tableMember doc "parameters" convertParameter
    ++ tableMember doc "responses" convertResponse

/-- A Swagger 2 document as an OpenAPI 3 document. -/
def convert (doc : Json) : Json :=
  modernize (.object (
    [("openapi", .string "3.0.0"), ("info", (doc.get? "info").getD (.object []))]
      ++ unlessEmpty "servers" .list (serversOf doc)
      ++ tableMember doc "paths" convertPathItem
      ++ unlessEmpty "components" .object (componentsOf doc)
      ++ copiedMember doc "tags" "tags"
      ++ copiedMember doc "externalDocs" "externalDocs"))

end EndpointBindings.Swagger

namespace EndpointBindings

/-- The OpenAPI 3 tree of a document of either version. -/
def toOpenApi3 (doc : Json) : Except Failure Json := do
  match ← Version.detect doc with
  | .openApi3 => return doc
  | .swagger2 => return Swagger.convert doc

section version

variable {doc : Json}

theorem toOpenApi3_of_openApi3 (h : Version.detect doc = .ok .openApi3) :
    toOpenApi3 doc = .ok doc := by
  rw [toOpenApi3, h]
  rfl

theorem toOpenApi3_of_swagger2 (h : Version.detect doc = .ok .swagger2) :
    toOpenApi3 doc = .ok (Swagger.convert doc) := by
  rw [toOpenApi3, h]
  rfl

theorem toOpenApi3_of_error {failure : Failure} (h : Version.detect doc = .error failure) :
    toOpenApi3 doc = .error failure := by
  rw [toOpenApi3, h]
  rfl

end version

end EndpointBindings
