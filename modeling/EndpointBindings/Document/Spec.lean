import EndpointBindings.Failure
import EndpointBindings.Json.Basic
import EndpointBindings.Schema.Basic
import EndpointBindings.Text.Escape

/-!
# Documents

An OpenAPI 3 document is kept twice: as the tree, so that references can reach any part of it, and
as the typed view that routes are extracted from.

Only the root can fail to be read.  Below it a field of the wrong shape is absent or empty, with two
exceptions that are strict inside: one bad field of the title block drops the block, and one bad
server drops all servers.
-/

namespace EndpointBindings.Json

/-! ## Records

A record has fields with names and an order.  It is written as an object with the fields as members,
or as a list of the fields in their order, with fields at the end left out; a list that is too long
is no record.  Members that are no fields are passed over.

Most fields are read leniently: a value of the wrong shape counts as absent.  Tables are read entry
by entry, and an entry that cannot be read is dropped from them.
-/

/-- The fields of a record, by name. -/
def record? (fields : List String) : Json → Option (Ordered String Json)
  | .object ms => some ms
  | .list xs => if xs.length ≤ fields.length then some (fields.zip xs) else none
  | _ => none

/-- A field read leniently. -/
def field? {α : Type} (r : Ordered String Json) (name : String) (read : Json → Option α) :
    Option α :=
  (Ordered.get? r name).bind read

/-- The entries of a table that can be read. -/
def entries {α : Type} (read : Json → Option α) (ms : List (String × Json)) : Ordered String α :=
  ms.filterMap fun (key, v) => (read v).map (key, ·)

/-- A table in a field; empty when the field is absent or no object. -/
def table {α : Type} (r : Ordered String Json) (name : String) (read : Json → Option α) :
    Ordered String α :=
  entries read ((field? r name members?).getD [])

/-- A text that must be a string when it is there, and is empty when it is not. -/
def strictText? (r : Ordered String Json) (name : String) : Option String :=
  match Ordered.get? r name with
  | none => some ""
  | some v => v.string?

/-- A text that must be a string or null when it is there. -/
def strictOptional? (r : Ordered String Json) (name : String) : Option (Option String) :=
  match Ordered.get? r name with
  | none | some .null => some none
  | some v => v.string?.map some

end EndpointBindings.Json

namespace EndpointBindings

/-! ## The typed view

What of a document is read with a type: its version, its title block, its paths, its component
schemas and its servers.  Parameters and operations stay trees here, so that a malformed one is
passed over by itself when routes are extracted.
-/

/-- The title block. -/
structure Info where
  title : String := ""
  version : String := ""
  description : Option String := none
deriving DecidableEq, Repr, Inhabited

/-- A server that the document names. -/
structure Server where
  url : String
  description : Option String := none
deriving DecidableEq, Repr, Inhabited

/-- A path item: the parameters that its operations share, and everything else it holds. -/
structure PathItem where
  parameters : List Json := []
  entries : List (String × Json) := []
deriving Inhabited

/-- The typed view.  `components` is absent unless the document has a readable block of them. -/
structure Spec where
  openapi : String := ""
  info : Info := {}
  paths : List (String × PathItem) := []
  components : Option (List (String × Schema)) := none
  servers : List Server := []
deriving Inhabited

/-! ### Reading -/

/-- The title block, unless one of its fields has a wrong shape. -/
def Info.ofJson? (v : Json) : Option Info := do
  let r ← v.record? ["title", "version", "description"]
  return {
    title := ← Json.strictText? r "title"
    version := ← Json.strictText? r "version"
    description := ← Json.strictOptional? r "description" }

/-- A server, unless it has no address or one of its fields has a wrong shape. -/
def Server.ofJson? (v : Json) : Option Server := do
  let r ← v.record? ["url", "description"]
  return {
    url := ← Json.field? r "url" Json.string?
    description := ← Json.strictOptional? r "description" }

/-- A path item is an object. -/
def PathItem.ofJson? (v : Json) : Option PathItem := do
  let ms ← v.members?
  return {
    parameters := (Json.field? ms "parameters" Json.list?).getD []
    entries := ms.filter (·.1 ≠ "parameters") }

/-- The component schemas. -/
def readComponents? (v : Json) : Option (List (String × Schema)) := do
  let r ← v.record? ["schemas"]
  return ((Json.field? r "schemas" Schema.namedSchemas?).getD [])

/-- The servers, when all of them can be read. -/
def readServers? (v : Json) : Option (List Server) := v.list? >>= (·.mapM Server.ofJson?)

namespace Spec

/-- The fields of the root, in order. -/
def fields : List String := ["openapi", "info", "paths", "components", "servers"]

/-- How messages name a tree that is no record. -/
def describe : Json → String
  | .null => "null"
  | .bool b => "boolean \u0060" ++ (if b then "true" else "false") ++ "\u0060"
  | .number (.int i) => "integer \u0060" ++ intText i ++ "\u0060"
  | .number (.float x) => "floating point \u0060" ++ (Number.float x).text ++ "\u0060"
  | .string s => "string " ++ Text.shown s
  | .list _ => "sequence"
  | .object _ => "map"

/-- Why a tree is no document. -/
def refusal : Json → String
  | .list xs => "invalid length " ++ intText xs.length ++ ", expected fewer elements in array"
  | v => "invalid type: " ++ describe v ++ ", expected struct OpenApiSpec"

/-- The view of a root's fields. -/
def ofRecord (r : Ordered String Json) : Spec where
  openapi := (Json.field? r "openapi" Json.string?).getD ""
  info := (Json.field? r "info" Info.ofJson?).getD {}
  paths := Json.table r "paths" PathItem.ofJson?
  components := Json.field? r "components" readComponents?
  servers := (Json.field? r "servers" readServers?).getD []

/-- The view of a document. -/
def ofJson (v : Json) : Except Failure Spec :=
  match v.record? fields with
  | some r => .ok (ofRecord r)
  | none => .error (.invalidDocument (refusal v))

/-- The address of the first server, or an empty one. -/
def baseUrl (s : Spec) : String :=
  match s.servers with
  | server :: _ => server.url
  | [] => ""

/-- The component schemas, none when there is no block of them. -/
def componentSchemas (s : Spec) : List (String × Schema) := s.components.getD []

end Spec

/-! ## A document with its view -/

/-- A tree with its typed view. -/
structure Document where
  raw : Json
  spec : Spec

namespace Document

/-- A tree as a document.  Its version is not looked at. -/
def ofJson (raw : Json) : Except Failure Document := do
  return { raw, spec := ← Spec.ofJson raw }

end Document

end EndpointBindings
