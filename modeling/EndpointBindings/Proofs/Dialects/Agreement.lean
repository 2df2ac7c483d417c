import EndpointBindings.Proofs.Dialects.Paths

/-!
# Both dialects describe one API

The main theorem (`ApiOutline.dialects_agree`): written as a Swagger 2 tree or as an OpenAPI 3
tree, an outline has the same base address, the same schemas, the same paths in the same order and
under each path the same endpoints.  The endpoints of a path may stand in another order, which
`PathOutline.order` says; where every path keeps its order the APIs are equal.

The rewrite of marks of null does not stop at schemas.  It renames every key `x-nullable` of the
document, and so a path of that name comes out under another one in Swagger 2
(`ApiOutline.dialects_disagree`).  This is the one name that a path must not have.
-/

namespace EndpointBindings

open Ordered (keys get? mapValues ofWrites)
open Swagger (modernize convertPathItem)

/-! ## Agreement -/

/-- Two APIs that differ at most in the order of a path's endpoints. -/
structure Api.AgreesWith (a b : Api) : Prop where
  baseUrl : a.baseUrl = b.baseUrl
  schemas : a.schemas = b.schemas
  paths : keys a.routes = keys b.routes
  endpoints : ∀ path es es', get? a.routes path = some es → get? b.routes path = some es' →
    es.Perm es'

namespace ApiOutline

/-! ## What a document of an outline is read as -/

/-- The API of an outline in a document, with the operations of each path in some order. -/
def apiIn (doc : Document) (order : PathOutline → List (Verb × OperationOutline))
    (o : ApiOutline) : Api where
  baseUrl := ""
  schemas := o.schemas.map fun p => (p.1.1, nodeIn doc p.2.schema)
  routes := ofWrites (o.paths.map fun p => (normalizePath p.path, p.endpoints doc (order p)))

/-- A document that is read as an outline, path by path. -/
structure Reads (doc : Document) (o : ApiOutline) (item : PathOutline → PathItem) : Prop where
  hasSchemas : HasSchemas doc.raw o.schemas
  baseUrl : doc.spec.baseUrl = ""
  schemas : doc.spec.componentSchemas = o.schemas.map fun p => (p.1.1, p.2.schema)
  paths : doc.spec.paths = o.paths.map fun p => (p.path, item p)

theorem Reads.api {doc : Document} {o : ApiOutline} {item : PathOutline → PathItem}
    (h : Reads doc o item) {order : PathOutline → List (Verb × OperationOutline)}
    (hitem : ∀ p, endpointsOf doc (item p) = p.endpoints doc (order p)) :
    doc.api = o.apiIn doc order := by
  rw [Document.api, routesOf, h.baseUrl, h.schemas, h.paths, mapValues, List.map_map, List.map_map,
    apiIn]
  simp only [Function.comp_def, hitem]

theorem apiIn_congr {doc doc' : Document} {o : ApiOutline} (h : HasSchemas doc.raw o.schemas)
    (h' : HasSchemas doc'.raw o.schemas) (order : PathOutline → List (Verb × OperationOutline)) :
    o.apiIn doc order = o.apiIn doc' order := by
  have hschemas : (o.schemas.map fun p => (p.1.1, nodeIn doc p.2.schema)) =
      o.schemas.map fun p => (p.1.1, nodeIn doc' p.2.schema) :=
    List.map_congr_left fun p _ => congrArg (p.1.1, ·) (p.2.nodeIn_congr h h')
  simp only [apiIn, PathOutline.endpoints_congr h h', hschemas]

theorem reads_treeOf {paths table : List (String × Json)} {o : ApiOutline}
    {item : PathOutline → PathItem}
    (hpaths : Json.entries PathItem.ofJson? paths = o.paths.map fun p => (p.path, item p))
    (htable : mapValues Schema.ofJson table = o.schemas.map fun p => (p.1.1, p.2.schema)) :
    Reads { raw := .object (treeOf paths table), spec := Spec.ofRecord (treeOf paths table) } o
      item where
  hasSchemas := ⟨table, by simp [treeOf, Json.walk?, Json.child?, get?], htable⟩
  baseUrl := by simp [Spec.baseUrl, Spec.ofRecord, Json.field?, treeOf, get?]
  schemas := by
    simp [Spec.componentSchemas, Spec.ofRecord, Json.field?, treeOf, get?, readComponents?,
      Json.record?, Schema.namedSchemas?, Schema.ofNamed_eq_map, htable]
  paths := by simp [Spec.ofRecord, Json.table, Json.field?, treeOf, get?, Json.members?, hpaths]

theorem entries_of_some {write : PathOutline → Json} {item : PathOutline → PathItem}
    (h : ∀ p, PathItem.ofJson? (write p) = some (item p)) (ps : List PathOutline) :
    Json.entries PathItem.ofJson? (ps.map fun p => (p.path, write p)) =
      ps.map fun p => (p.path, item p) := by
  rw [Json.entries, List.filterMap_map]
  refine filterMap_of_some (fun p => ?_) ps
  simp [h]

/-! ## The two documents -/

theorem ofJson_openApi3 (o : ApiOutline) :
    ∃ doc : Document, HasSchemas doc.raw o.schemas ∧
      Api.ofJson (o.toJson .openApi3) = .ok (o.apiIn doc PathOutline.operations) := by
  have hpaths := entries_of_some PathOutline.ofJson?_openApi3 o.paths
  have htable : mapValues Schema.ofJson (outlineMembers .openApi3 o.schemas) =
      o.schemas.map fun p => (p.1.1, p.2.schema) := by
    rw [outlineMembers_eq_map, mapValues, List.map_map]
    rfl
  have hreads := reads_treeOf hpaths htable
  refine ⟨_, hreads.hasSchemas, ?_⟩
  rw [← hreads.api (PathOutline.endpointsOf_openApi3 _)]
  exact Api.ofJson_of_object (toOpenApi3_of_openApi3 rfl)

/-- The rewrite goes through the paths one by one when none of them is the mark of null. -/
theorem modernize_paths {o : ApiOutline} (hpaths : ∀ p ∈ o.paths, p.path ≠ "x-nullable") :
    modernize (.object (o.paths.map fun p => (p.path, convertPathItem (p.toJson .swagger2)))) =
      .object (o.paths.map fun p =>
        (p.path, modernize (convertPathItem (p.toJson .swagger2)))) := by
  rw [Swagger.modernize_table, mapValues, List.map_map]
  · rfl
  · intro hmem
    obtain ⟨e, he, hkey⟩ := List.mem_map.1 hmem
    obtain ⟨p, hp, rfl⟩ := List.mem_map.1 he
    exact hpaths p hp hkey
  · intro key v he
    obtain ⟨p, -, hp⟩ := List.mem_map.1 he
    cases hp
    rw [p.convertPathItem_toJson]
    rfl

/-- The tree of an outline after conversion. -/
theorem convert_toJson {o : ApiOutline} (hpaths : ∀ p ∈ o.paths, p.path ≠ "x-nullable") :
    Swagger.convert (o.toJson .swagger2) = .object (treeOf
      (o.paths.map fun p => (p.path, modernize (convertPathItem (p.toJson .swagger2))))
      (mapValues modernize (outlineMembers .swagger2 o.schemas))) := by
  have hmembers : Swagger.convert (o.toJson .swagger2) = modernize (.object (treeOf
      (o.paths.map fun p => (p.path, convertPathItem (p.toJson .swagger2)))
      (outlineMembers .swagger2 o.schemas))) := by
    simp [Swagger.convert, toJson, Json.get?, Json.members?, get?, Swagger.serversOf,
      Swagger.unlessEmpty, Swagger.tableMember, Swagger.componentsOf, Swagger.copiedMember, treeOf,
      mapValues, Function.comp_def]
  have hinfo : modernize outlineInfo = outlineInfo :=
    Swagger.modernize_of_not_mem (by simp [keys]) (by simp [keys])
  have hcomponents : modernize
      (.object [("schemas", .object (outlineMembers .swagger2 o.schemas))]) =
        .object [("schemas", modernize (.object (outlineMembers .swagger2 o.schemas)))] :=
    Swagger.modernize_of_not_mem (by simp [keys]) (by simp [keys])
  rw [hmembers, Swagger.modernize_of_not_mem (by simp [treeOf, keys]) (by simp [treeOf, keys])]
  simp only [treeOf, mapValues, List.map_cons, List.map_nil, hinfo, modernize_paths hpaths,
    hcomponents, modernize_outlineMembers]
  rfl

theorem ofJson_swagger2 {o : ApiOutline} (hpaths : ∀ p ∈ o.paths, p.path ≠ "x-nullable") :
    ∃ doc : Document, HasSchemas doc.raw o.schemas ∧
      Api.ofJson (o.toJson .swagger2) = .ok (o.apiIn doc PathOutline.order) := by
  have hpathItems := entries_of_some PathOutline.ofJson?_swagger2 o.paths
  have htable : mapValues Schema.ofJson (mapValues modernize (outlineMembers .swagger2 o.schemas)) =
      o.schemas.map fun p => (p.1.1, p.2.schema) := by
    rw [outlineMembers_eq_map, mapValues, mapValues, List.map_map, List.map_map]
    exact List.map_congr_left fun p _ => congrArg (p.1.1, ·) p.2.ofJson_modernized
  have hreads := reads_treeOf hpathItems htable
  refine ⟨_, hreads.hasSchemas, ?_⟩
  rw [← hreads.api (PathOutline.endpointsOf_swagger2 _)]
  refine Api.ofJson_of_object ?_
  rw [toOpenApi3_of_swagger2 rfl, convert_toJson hpaths]

/-! ## The theorem -/

theorem apiIn_agreesWith (o : ApiOutline) (doc : Document)
    {order order' : PathOutline → List (Verb × OperationOutline)}
    (h : ∀ p, (order p).Perm (order' p)) :
    (o.apiIn doc order).AgreesWith (o.apiIn doc order') where
  baseUrl := rfl
  schemas := rfl
  paths := by rw [apiIn, apiIn, Ordered.keys_ofWrites_map, Ordered.keys_ofWrites_map]
  endpoints := by
    intro path es es' hes hes'
    rw [apiIn, Ordered.get?_ofWrites_map] at hes hes'
    obtain ⟨p, hp, rfl⟩ := Option.map_eq_some_iff.1 hes
    obtain ⟨p', hp', rfl⟩ := Option.map_eq_some_iff.1 hes'
    -- both tables hold under a path what the last outline of that path wrote
    cases hp.symm.trans hp'
    exact (h p).map _

theorem apiIn_eq {o : ApiOutline} (h : ∀ p ∈ o.paths, p.KeepsOrder) (doc : Document) :
    o.apiIn doc PathOutline.order = o.apiIn doc PathOutline.operations := by
  have hroutes : (o.paths.map fun p => (normalizePath p.path, p.endpoints doc p.order)) =
      o.paths.map fun p => (normalizePath p.path, p.endpoints doc p.operations) :=
    List.map_congr_left fun p hp => by rw [PathOutline.order_eq (h p hp)]
  rw [apiIn, apiIn, hroutes]

/-- **Both dialects describe one API.**  An outline none of whose paths is the mark of null is read
from either tree as the API that it outlines: with its schemas, its paths and under each path its
operations.  The two APIs differ at most in the order of a path's endpoints, and they are equal when
every path keeps its order. -/
theorem dialects_agree (o : ApiOutline) (hpaths : ∀ p ∈ o.paths, p.path ≠ "x-nullable") :
    ∃ doc : Document, HasSchemas doc.raw o.schemas ∧
      Api.ofJson (o.toJson .swagger2) = .ok (o.apiIn doc PathOutline.order) ∧
      Api.ofJson (o.toJson .openApi3) = .ok (o.apiIn doc PathOutline.operations) ∧
      (o.apiIn doc PathOutline.order).AgreesWith (o.apiIn doc PathOutline.operations) ∧
      ((∀ p ∈ o.paths, p.KeepsOrder) →
        o.apiIn doc PathOutline.order = o.apiIn doc PathOutline.operations) := by
  obtain ⟨doc, hschemas, hswagger⟩ := ofJson_swagger2 hpaths
  obtain ⟨doc', hschemas', hopenApi⟩ := ofJson_openApi3 o
  refine ⟨doc', hschemas', ?_, hopenApi, o.apiIn_agreesWith doc' PathOutline.order_perm, ?_⟩
  · rw [hswagger, apiIn_congr hschemas hschemas']
  · intro hkeeps
    exact apiIn_eq hkeeps doc'

/-- A schema that is a reference. -/
def refersTo (name : OutlineName) : SchemaOutline :=
  ⟨{}, some name, none, none, none, none, none, none, none⟩

/-- A schema of one type. -/
def ofType (name : String) (nullable : Option Bool) : SchemaOutline :=
  ⟨{ types := some (.single name), nullable }, none, none, none, none, none, none, none, none⟩

def item : OutlineName := ⟨"Item", by decide⟩

def special : OutlineName := ⟨"Special", by decide⟩

/-- An item has a name and another item above it. -/
def itemProperties : List (OutlineName × SchemaOutline) :=
  [(⟨"name", by decide⟩, ofType "string" (some true)), (⟨"parent", by decide⟩, refersTo item)]

/-- Items and special items, which are made of them, under a path with a shared parameter and a
shared body. -/
def catalogue : ApiOutline where
  schemas := [
    (item, ⟨{}, none, some ["name"], none, some itemProperties, none, none, none, none⟩),
    (special, ⟨{}, none, none, none, none, none, some [refersTo item], none, none⟩)]
  paths := [{
    path := "/items/{id}"
    parameters := [⟨"id", ⟨"path", by decide⟩, true, { types := some (.single "integer") }, none⟩]
    body := some (refersTo special)
    operations := [
      (.get, ⟨[⟨"page", ⟨"query", by decide⟩, false, {}, none⟩], none, some (refersTo item)⟩),
      (.put, ⟨[], some (refersTo item), none⟩)]
    distinct := by decide
    place := 1 }]

theorem catalogue_agrees :
    (∀ p ∈ catalogue.paths, p.path ≠ "x-nullable") ∧
    ∃ doc : Document, HasSchemas doc.raw catalogue.schemas ∧
      Api.ofJson (catalogue.toJson .swagger2) = .ok (catalogue.apiIn doc PathOutline.order) ∧
      Api.ofJson (catalogue.toJson .openApi3) = .ok (catalogue.apiIn doc PathOutline.operations) ∧
      (catalogue.apiIn doc PathOutline.order).AgreesWith
        (catalogue.apiIn doc PathOutline.operations) ∧
      ((∀ p ∈ catalogue.paths, p.KeepsOrder) →
        catalogue.apiIn doc PathOutline.order = catalogue.apiIn doc PathOutline.operations) :=
  have hpaths : ∀ p ∈ catalogue.paths, p.path ≠ "x-nullable" := by simp [catalogue]
  ⟨hpaths, dialects_agree catalogue hpaths⟩

/-- An operation that says nothing. -/
def bare : OperationOutline := ⟨[], none, none⟩

/-- One path, named like the mark of null. -/
def misnamed : ApiOutline where
  paths := [{
    path := "x-nullable", parameters := [], body := none, operations := [(.get, bare)],
    distinct := by decide, place := 0 }]
  schemas := []

/-- Two operations behind a parameter that they share. -/
def crowded : ApiOutline where
  paths := [{
    path := "/items", parameters := [⟨"page", ⟨"query", by decide⟩, false, {}, none⟩], body := none,
    operations := [(.get, bare), (.post, bare)], distinct := by decide, place := 0 }]
  schemas := []

/-- A path that is the mark of null has another name in Swagger 2, and operations behind shared
parameters another order. -/
theorem dialects_disagree :
    (∃ api api', Api.ofJson (misnamed.toJson .swagger2) = .ok api ∧
      Api.ofJson (misnamed.toJson .openApi3) = .ok api' ∧ ¬ api.AgreesWith api') ∧
    ∃ api api', Api.ofJson (crowded.toJson .swagger2) = .ok api ∧
      Api.ofJson (crowded.toJson .openApi3) = .ok api' ∧ api ≠ api' := by
  constructor
  · refine ⟨_, _, rfl, rfl, fun h => ?_⟩
    exact absurd h.paths (by decide)
  · refine ⟨_, _, rfl, rfl, fun h => ?_⟩
    exact absurd (congrArg (fun api => api.routes.map fun route => keys route.2) h) (by decide)

end ApiOutline

end EndpointBindings
