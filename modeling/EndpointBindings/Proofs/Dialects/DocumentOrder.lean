import EndpointBindings.Proofs.Composition.Positions
import EndpointBindings.Proofs.Dialects.Declarations

/-!
# Document order after the conversion

A Swagger 2 document comes out of the conversion with its definitions, its paths, its properties and
its declarations of parameters in the order in which it writes them.  The verbs of a path are the
exception: behind shared parameters the last operation comes out first (`Displaced`), and every
other path item keeps the order of its verbs (`document_order`).

The rewrite takes keys named like the mark of null for the mark, and renaming one moves it.  So
nothing whose order counts may have that name (`OrderlyNames`).
-/

namespace EndpointBindings

open Ordered (keys get? mapValues)
open Swagger (modernize modernizeAt modernizeMembers renameNullable convertPathItem tableMember
  copiedMember unlessEmpty componentsOf serversOf)
open Schema (ofJson)

/-- The members of the object at a key; none when no object is there. -/
def Json.tableAt (v : Json) (key : String) : List (String × Json) :=
  ((v.get? key).bind Json.members?).getD []

/-- The path items of a document, with their members. -/
def pathItems (v : Json) : List (String × List (String × Json)) :=
  (v.tableAt "paths").filterMap fun e => e.2.members?.map (e.1, ·)

/-- Nothing whose order counts is named like the mark of null, paths are told apart by their
normalized forms, and verbs are written in lower case. -/
structure OrderlyNames (v : Json) : Prop where
  properties : PlainProperties v
  definitions : "x-nullable" ∉ keys (v.tableAt "definitions")
  paths : "x-nullable" ∉ keys (v.tableAt "paths")
  items : ∀ p ∈ pathItems v, "x-nullable" ∉ keys p.2
  distinct : ((pathItems v).map fun p => normalizePath p.1).Nodup
  verbs : ∀ p ∈ pathItems v, ∀ key ∈ keys p.2, (Verb.ofKey? key).isSome → key ∈ Verb.keys

/-! ## The converted document -/

theorem get?_tableMember (v : Json) (key key' : String) (f : Json → Json) :
    get? (tableMember v key f) key' = if key = key' then
      ((v.get? key).bind Json.members?).map fun ms => .object (mapValues f ms) else none := by
  rw [tableMember]
  cases (v.get? key).bind Json.members? with
  | none =>
      rw [Option.map_none, ite_self]
      rfl
  | some ms => rfl

theorem get?_copiedMember (v : Json) (source key key' : String) :
    get? (copiedMember v source key) key' = if key = key' then v.get? source else none := by
  rw [copiedMember]
  cases v.get? source with
  | none =>
      rw [ite_self]
      rfl
  | some w => rfl

theorem get?_unlessEmpty {α : Type} (key key' : String) (write : List α → Json) (xs : List α) :
    get? (unlessEmpty key write xs) key' =
      if key = key' then (if xs.isEmpty then none else some (write xs)) else none := by
  cases xs with
  | nil => split <;> rfl
  | cons x xs => rfl

/-- The members of a converted document, before the rewrite. -/
def convertedMembers (v : Json) : List (String × Json) :=
  [("openapi", .string "3.0.0"), ("info", (v.get? "info").getD (.object []))]
    ++ unlessEmpty "servers" .list (serversOf v)
    ++ tableMember v "paths" convertPathItem
    ++ unlessEmpty "components" .object (componentsOf v)
    ++ copiedMember v "tags" "tags"
    ++ copiedMember v "externalDocs" "externalDocs"

theorem get?_convertedMembers_paths (v : Json) :
    get? (convertedMembers v) "paths" =
      ((v.get? "paths").bind Json.members?).map fun ms =>
        .object (mapValues convertPathItem ms) := by
  simp [convertedMembers, Ordered.get?_append, Ordered.get?_cons, get?_unlessEmpty,
    get?_tableMember, get?_copiedMember]

theorem get?_convertedMembers_components (v : Json) :
    get? (convertedMembers v) "components" =
      if (componentsOf v).isEmpty then none else some (.object (componentsOf v)) := by
  simp [convertedMembers, Ordered.get?_append, Ordered.get?_cons, get?_unlessEmpty,
    get?_tableMember, get?_copiedMember]

theorem get?_convertedMembers_mark (v : Json) : get? (convertedMembers v) "x-nullable" = none := by
  simp [convertedMembers, Ordered.get?_append, Ordered.get?_cons, get?_unlessEmpty,
    get?_tableMember, get?_copiedMember]

/-- An object without the mark of null is rewritten member by member. -/
theorem modernize_object {ms : List (String × Json)} (h : "x-nullable" ∉ keys ms) :
    modernize (.object ms) = .object (modernizeMembers ms) := by
  rw [modernize, Swagger.renameNullable_of_not_mem (by rwa [Swagger.keys_modernizeMembers])]

theorem convert_eq (v : Json) :
    Swagger.convert v = .object (modernizeMembers (convertedMembers v)) :=
  modernize_object (Ordered.get?_eq_none_iff.1 (get?_convertedMembers_mark v))

/-! ## What it is read as -/

/-- The typed view of a converted document. -/
def convertedSpec (v : Json) : Spec := Spec.ofRecord (modernizeMembers (convertedMembers v))

theorem ofJson?_convertedPath (key : String) {w : Json} (hw : w.WellFormed)
    (hplain : ∀ ms, w = .object ms → "x-nullable" ∉ keys ms) :
    PathItem.ofJson? (modernizeAt key (convertPathItem w)) = w.members?.map convertedItem := by
  cases w with
  | object ms =>
      obtain ⟨hnodup, -⟩ := Json.wellFormed_object_iff.1 hw
      exact ofJson?_convertPathItem hnodup (hplain ms rfl)
  | string s =>
      show PathItem.ofJson? (modernizeAt key (.string s)) = none
      rw [modernizeAt]
      split <;> rfl
  | null | bool _ | number _ | list _ => rfl

theorem ofJson_convert (v : Json) :
    Document.ofJson (Swagger.convert v) = .ok ⟨Swagger.convert v, convertedSpec v⟩ :=
  Document.ofJson_eq_ok_iff.2 ⟨modernizeMembers (convertedMembers v), by rw [convert_eq]; rfl, rfl⟩

/-- A table is empty or the members of an object at the key. -/
theorem tableAt_eq_or (v : Json) (key : String) :
    v.tableAt key = [] ∨ (Json.object (v.tableAt key)).StandsIn v := by
  rw [Json.tableAt]
  cases htable : (v.get? key).bind Json.members? with
  | none => exact .inl rfl
  | some ms =>
      obtain ⟨u, hu, hms⟩ := Option.bind_eq_some_iff.1 htable
      obtain rfl := Json.eq_of_members? hms
      obtain ⟨ns, hns, hu⟩ := Option.bind_eq_some_iff.1 hu
      obtain rfl := Json.eq_of_members? hns
      exact .inr (.member (Ordered.mem_of_get? hu) .whole)

theorem standsIn_of_mem_tableAt {v w : Json} {key name : String}
    (h : (name, w) ∈ v.tableAt key) : w.StandsIn v := by
  rcases tableAt_eq_or v key with hempty | htable
  · rw [hempty] at h
    exact absurd h List.not_mem_nil
  · exact .trans (.member h .whole) htable

theorem nodup_keys_tableAt {v : Json} (hv : v.WellFormed) (key : String) :
    (keys (v.tableAt key)).Nodup := by
  rcases tableAt_eq_or v key with hempty | htable
  · rw [hempty]
    exact List.nodup_nil
  · exact (Json.wellFormed_object_iff.1 (hv.of_standsIn htable)).1

/-- The table of paths as the rewrite leaves it. -/
theorem tableAt_paths_converted (v : Json) :
    (Json.field? (modernizeMembers (convertedMembers v)) "paths" Json.members?).getD [] =
      renameNullable (modernizeMembers (mapValues convertPathItem (v.tableAt "paths"))) := by
  rw [Json.field?, Swagger.get?_modernizeMembers, get?_convertedMembers_paths, Json.tableAt]
  cases (v.get? "paths").bind Json.members? with
  | none => rfl
  | some ps =>
      rw [Option.map_some, Option.map_some, Swagger.modernizeAt_of_ne (by decide), modernize]
      rfl

theorem paths_convertedSpec {v : Json} (hv : v.WellFormed) (h : OrderlyNames v) :
    (convertedSpec v).paths = (pathItems v).map fun p => (p.1, convertedItem p.2) := by
  have htable :
      (Json.field? (modernizeMembers (convertedMembers v)) "paths" Json.members?).getD [] =
        (v.tableAt "paths").map fun e => (e.1, modernizeAt e.1 (convertPathItem e.2)) := by
    rw [tableAt_paths_converted, Swagger.renameNullable_of_not_mem
      (by rw [Swagger.keys_modernizeMembers, Ordered.keys_mapValues]; exact h.paths),
      Swagger.modernizeMembers_eq]
    exact List.map_map
  show Json.entries PathItem.ofJson? _ = _
  rw [htable, Json.entries, List.filterMap_map, pathItems, List.map_filterMap]
  refine List.filterMap_congr fun e he => ?_
  have hitem := ofJson?_convertedPath e.1 (hv.of_standsIn (standsIn_of_mem_tableAt he))
    fun ms hms => h.items (e.1, ms) (List.mem_filterMap.2 ⟨e, he, by rw [hms]; rfl⟩)
  show (PathItem.ofJson? _).map _ = _
  rw [hitem, Option.map_map, Option.map_map]
  rfl

/-- The component schemas are read from the definitions, which are one part of the components. -/
theorem componentSchemas_eq_definitions (v : Json) : (convertedSpec v).componentSchemas =
    (((v.get? "definitions").map (modernizeAt "schemas")).bind Schema.namedSchemas?).getD [] := by
  have hmark : "x-nullable" ∉ keys (componentsOf v) := by
    rw [← Ordered.get?_eq_none_iff]
    simp [componentsOf, Ordered.get?_append, get?_tableMember, get?_copiedMember]
  have hschemas : get? (componentsOf v) "schemas" = v.get? "definitions" := by
    simp [componentsOf, Ordered.get?_append, get?_tableMember, get?_copiedMember]
  show ((get? (modernizeMembers (convertedMembers v)) "components").bind
    readComponents?).getD [] = _
  rw [← hschemas, Swagger.get?_modernizeMembers, get?_convertedMembers_components]
  cases hparts : componentsOf v with
  | nil => rfl
  | cons part parts =>
      rw [hparts] at hmark
      rw [← Swagger.get?_modernizeMembers, List.isEmpty_cons, if_neg (by decide), Option.map_some,
        Swagger.modernizeAt_of_ne (by decide), modernize_object hmark]
      rfl

theorem componentSchemas_convertedSpec {v : Json} (h : OrderlyNames v) :
    (convertedSpec v).componentSchemas =
      mapValues (fun w => ofJson (modernize w)) (v.tableAt "definitions") := by
  have hdefinitions := h.definitions
  rw [componentSchemas_eq_definitions, Json.tableAt]
  rw [Json.tableAt] at hdefinitions
  cases hw : v.get? "definitions" with
  | none => rfl
  | some w =>
      cases w with
      | object ms =>
          rw [hw] at hdefinitions
          have hdefinitions : "x-nullable" ∉ keys ms := hdefinitions
          rw [Option.map_some, Swagger.modernizeAt_of_ne (by decide), modernize_object hdefinitions]
          show Schema.ofNamed (modernizeMembers ms) = mapValues _ ms
          rw [Schema.ofNamed_eq_map, Swagger.modernizeMembers_eq, mapValues, List.map_map]
          refine List.map_congr_left fun e _ => ?_
          show (e.1, ofJson (modernizeAt e.1 e.2)) = _
          rw [ofJson_modernizeAt]
      | null | bool _ | number _ | string _ | list _ => rfl

/-! ## Endpoints -/

/-- The node is one of a schema that lists properties as a tree in `v` does. -/
def Node.ListedIn (n : Node) (doc : Document) (v : Json) : Prop :=
  ∃ s : Schema, s.ListedIn v ∧ n = nodeIn doc s

section kinds

variable {f : Facets} {ps properties : List (String × Node)} {items : Option Node}
  {required : List String}

theorem properties_kindOfType {name : String}
    (h : kindOfType f items ps name = .object properties required) : properties = ps := by
  unfold kindOfType at h
  split at h <;> cases h
  rfl

theorem properties_kindOfTypes {names : List String}
    (h : kindOfTypes f items ps names = .object properties required) : properties = ps := by
  unfold kindOfTypes at h
  dsimp only at h
  split at h
  · split at h <;> cases h
  · split at h
    · cases h
    · exact properties_kindOfType h
  · split at h <;> cases h

/-- The properties of an object are the nodes of the schema's properties. -/
theorem properties_kindOfParts {allOf oneOf anyOf : List Node}
    (h : kindOfParts f ps items allOf oneOf anyOf = .object properties required) :
    properties = ps := by
  unfold kindOfParts at h
  split at h
  · cases h
  · split at h
    · cases h
    · cases h
    · cases h
    · split at h
      · exact properties_kindOfType h
      · exact properties_kindOfTypes h
      · split at h <;> cases h
        rfl

end kinds

/-- The properties of an object are listed as in the tree that its schema is like, unless members
are merged into it. -/
theorem keys_properties_of_bare {doc : Document} {s : Schema} {u : Json}
    (h : s.bare = (ofJson u).bare) (hown : s.members = []) {properties : List (String × Node)}
    {required : List String} (hkind : (nodeIn doc s).kind = .object properties required) :
    keys properties = keys (u.tableAt "properties") := by
  rw [nodeIn_of_plain hown, toNode_kind] at hkind
  rw [properties_kindOfParts hkind, keys_optionalNamedNodes]
  have hkeys : ∀ t : Schema, keys (t.properties.getD []) = keys (t.bare.properties.getD []) := by
    intro t
    rw [Schema.bare_eq]
    cases t.properties with
    | none => rfl
    | some ps => exact (Ordered.keys_mapValues ..).symm
  have hread : (ofJson u).properties.getD [] = mapValues ofJson (u.tableAt "properties") := by
    cases u with
    | object ms =>
        show (Schema.ofMembers ms).properties.getD [] = _
        rw [Schema.ofMembers_eq, Json.tableAt]
        show ((get? ms "properties").bind Schema.namedSchemas?).getD [] =
          mapValues ofJson (((get? ms "properties").bind Json.members?).getD [])
        cases hv : get? ms "properties" with
        | none => rfl
        | some v =>
            cases v with
            | object ps => exact Schema.ofNamed_eq_map ps
            | null | bool _ | number _ | string _ | list _ => rfl
    | null | bool _ | number _ | string _ | list _ => rfl
  rw [hkeys, h, ← hkeys, hread, Ordered.keys_mapValues]

/-- An endpoint of a path item's operation lists parameters in the order of their declarations, and
properties in the order of the item. -/
structure Endpoint.InOrder (e : Endpoint) (doc : Document) (item : List (String × Json))
    (op : Operation) : Prop where
  query : e.query.map (·.name) = declaredNames "query"
    ((Json.field? item "parameters" Json.list?).getD [] ++ op.parameters)
  pathParams : e.pathParams.map (·.name) = declaredNames "path"
    ((Json.field? item "parameters" Json.list?).getD [] ++ op.parameters)
  nodes : ∀ n ∈ e.response.toList ++ e.body.toList ++ (e.query ++ e.pathParams).map (·.node),
    n.ListedIn doc (.object item)

/-- A parameter without a schema has the node of the schema that says nothing. -/
theorem listedIn_any (doc : Document) (item : List (String × Json)) :
    Node.any.ListedIn doc (.object item) := by
  refine ⟨{}, ⟨.object item, _, .whole, .members item fun _ => false, ?_⟩, ?_⟩
  · rw [List.filter_false]
    rfl
  · rw [nodeIn_of_plain rfl]
    rfl

theorem listedIn_of_mem_parametersAt {doc : Document} {item : List (String × Json)}
    {shared own : List Json} (h : ∀ v ∈ shared ++ own, ∀ w, w.StandsIn v →
      (ofJson w).ListedIn (.object item)) {location : String} {p : NamedNode}
    (hp : p ∈ parametersAt doc location (effectiveParameters shared own)) :
    p.node.ListedIn doc (.object item) := by
  obtain ⟨q, hq, rfl⟩ := List.mem_map.1 hp
  obtain ⟨v, hv, hread⟩ := exists_of_mem_effectiveParameters (List.mem_filter.1 hq).1
  rw [namedNodeIn]
  cases hs : q.schema with
  | none => exact listedIn_any doc item
  | some s =>
      obtain ⟨w, hw, rfl⟩ := Parameter.exists_of_schema hread hs
      exact ⟨_, h v hv w hw, rfl⟩

section items

variable {item : List (String × Json)} (hitem : (Json.object item).WellFormed)

include hitem

theorem inOrder_endpointOf (hplain : PlainProperties (.object item)) {doc : Document} {verb : Verb}
    {key : String} {v : Json} (hv : (key, v) ∈ item) {op op' : Operation}
    (hop : Operation.ofJson? v = some op)
    (hop' : Operation.ofJson? (modernizeAt key
      (Swagger.convertEntry (Swagger.sharedBody item) (key, v)).2) = some op') :
    (endpointOf doc verb (convertedItem item).parameters op').InOrder doc item op := by
  obtain ⟨hcontent, hown⟩ :=
    (DrawnOperation.convertEntry hitem (drawn_sharedBody hitem) hv).listedIn hitem hplain hop'
  have hdeclared : ∀ location, location ≠ "body" → location ≠ "formData" →
      (parametersAt doc location (effectiveParameters (convertedItem item).parameters
        op'.parameters)).map (·.name) = declaredNames location
          ((Json.field? item "parameters" Json.list?).getD [] ++ op.parameters) := by
    intro location hbody hform
    have hshared : (convertedItem item).parameters.filterMap (declared? location) = _ :=
      declared_shared hbody hform hitem
    rw [names_parametersAt, declaredNames, declaredNames, List.filterMap_append,
      List.filterMap_append, declared_operation hbody hform hitem hv hop hop', hshared]
  have hparameter : ∀ location, ∀ p ∈ parametersAt doc location
      (effectiveParameters (convertedItem item).parameters op'.parameters),
        p.node.ListedIn doc (.object item) := by
    intro location p hp
    refine listedIn_of_mem_parametersAt (fun q hq w hw => ?_) hp
    rcases List.mem_append.1 hq with hq | hq
    · exact listedIn_of_shared hitem hplain hq hw
    · exact hown q hq w hw
  refine ⟨hdeclared "query" (by decide) (by decide), hdeclared "path" (by decide) (by decide), ?_⟩
  intro n hn
  rcases List.mem_append.1 hn with hn | hn
  · rcases List.mem_append.1 hn with hn | hn
    · obtain ⟨s, hs, rfl⟩ := Option.map_eq_some_iff.1 (Option.mem_toList.1 hn)
      exact ⟨s, hcontent s (.inr ⟨"200", hs⟩), rfl⟩
    · obtain ⟨s, hs, rfl⟩ := Option.map_eq_some_iff.1 (Option.mem_toList.1 hn)
      exact ⟨s, hcontent s (.inl hs), rfl⟩
  · obtain ⟨p, hp, rfl⟩ := List.mem_map.1 hn
    rcases List.mem_append.1 hp with hp | hp
    · exact hparameter "query" p hp
    · exact hparameter "path" p hp

theorem inOrder_of_mem_endpointsOf (hplain : PlainProperties (.object item)) {doc : Document}
    {verb : Verb} {e : Endpoint} (he : (verb, e) ∈ endpointsOf doc (convertedItem item)) :
    ∃ key v op, (key, v) ∈ item ∧ Verb.ofKey? key = some verb ∧ Operation.ofJson? v = some op ∧
      e.InOrder doc item op := by
  obtain ⟨_, _, op', hentry, hverb, hop', rfl⟩ := exists_of_mem_endpointsOf he
  obtain ⟨⟨key, v⟩, hv, he⟩ := List.mem_map.1 hentry
  cases he
  have hv := Ordered.mem_of_mem_swapErase hv
  have hread : (Operation.ofJson? v).isSome := by
    rw [Swagger.bothReadable_convertEntry (Swagger.sharedBody item) key v,
      Swagger.bothReadable_modernizeAt key, hop']
    rfl
  obtain ⟨op, hop⟩ := Option.isSome_iff_exists.1 hread
  exact ⟨key, v, op, hv, hverb, hop, inOrder_endpointOf hitem hplain hv hop hop'⟩

end items

/-! ## The theorem -/

theorem routes_converted {v : Json} (hv : v.WellFormed) (hnames : OrderlyNames v)
    {doc : Document} (hdoc : doc.spec = convertedSpec v) :
    doc.api.routes = (pathItems v).map fun p =>
      (normalizePath p.1, endpointsOf doc (convertedItem p.2)) := by
  show routesOf doc = _
  rw [routesOf, hdoc, paths_convertedSpec hv hnames, List.map_map, Ordered.ofWrites_of_nodup]
  · rfl
  · rw [keys, List.map_map]
    exact hnames.distinct

theorem standsIn_of_mem_pathItems {v : Json} {path : String} {ms : List (String × Json)}
    (h : (path, ms) ∈ pathItems v) : (Json.object ms).StandsIn v := by
  obtain ⟨⟨_, w⟩, he, hread⟩ := List.mem_filterMap.1 h
  obtain ⟨_, hms, hread⟩ := Option.map_eq_some_iff.1 hread
  cases hread
  rw [← Json.eq_of_members? hms]
  exact standsIn_of_mem_tableAt he

/-- **Document order after the conversion.**  A Swagger 2 document in which nothing whose order
counts is named like the mark of null is read as an API with the definitions in their order, each
with the properties that it lists, and with the paths in their order.  Below a path, parameters
stand in the order of their declarations, and every schema lists properties as a tree in the path
item does.  An object node takes its properties from the tree that its schema is like, in that
order, when nothing is merged into it.  The verbs are those of the item, and they keep its order
exactly when none is displaced by taking the shared parameters out. -/
theorem document_order {v : Json} (hv : v.WellFormed) (hversion : Version.detect v = .ok .swagger2)
    (hnames : OrderlyNames v) :
    ∃ doc : Document, Api.ofJson v = .ok doc.api ∧
      (∀ (s : Schema) u, s.bare = (ofJson u).bare → s.members = [] → ∀ properties required,
        (nodeIn doc s).kind = .object properties required →
          keys properties = keys (u.tableAt "properties")) ∧
      keys doc.api.schemas = keys (v.tableAt "definitions") ∧
      (∀ name w, (name, w) ∈ v.tableAt "definitions" →
        ∃ s : Schema, (name, nodeIn doc s) ∈ doc.api.schemas ∧ s.bare = (ofJson w).bare) ∧
      keys doc.api.routes = (pathItems v).map (fun p => normalizePath p.1) ∧
      ∀ path ms, (path, ms) ∈ pathItems v →
        ∃ es, (normalizePath path, es) ∈ doc.api.routes ∧ (keys es).Perm (verbsOf ms) ∧
          (keys es = verbsOf ms ↔ ¬ Displaced ms) ∧
          ∀ verb e, (verb, e) ∈ es → ∃ key w op, (key, w) ∈ ms ∧ Verb.ofKey? key = some verb ∧
            Operation.ofJson? w = some op ∧ e.InOrder doc ms op := by
  let doc : Document := ⟨Swagger.convert v, convertedSpec v⟩
  have hapi : Api.ofJson v = .ok doc.api :=
    Api.ofJson_of_document (toOpenApi3_of_swagger2 hversion) (ofJson_convert v)
  have hschemas : doc.api.schemas = mapValues (nodeIn doc)
      (mapValues (fun w => ofJson (modernize w)) (v.tableAt "definitions")) := by
    rw [← componentSchemas_convertedSpec hnames]
    rfl
  have hroutes := routes_converted hv hnames (rfl : doc.spec = convertedSpec v)
  refine ⟨doc, hapi,
    fun s u hbare hown properties required => keys_properties_of_bare hbare hown, ?_, ?_, ?_, ?_⟩
  · rw [hschemas, Ordered.keys_mapValues, Ordered.keys_mapValues]
  · intro name w hw
    have hin := standsIn_of_mem_tableAt hw
    refine ⟨ofJson (modernize w), ?_, ?_⟩
    · rw [hschemas]
      exact List.mem_map_of_mem (List.mem_map_of_mem hw)
    · exact bare_modernize (hv.of_standsIn hin) (hnames.properties.of_standsIn hin)
  · rw [hroutes, keys, List.map_map]
    rfl
  · intro path ms hms
    have hin := standsIn_of_mem_pathItems hms
    have hitem := hv.of_standsIn hin
    obtain ⟨hnodup, -⟩ := Json.wellFormed_object_iff.1 hitem
    have hverbs := nodup_verbsOf hnodup (hnames.verbs _ hms)
    have hperm := verbsOf_swapErase_perm ms
    have hkeys := keys_endpointsOf_convertedItem doc (hperm.nodup_iff.2 hverbs)
    refine ⟨_, by rw [hroutes]; exact List.mem_map.2 ⟨(path, ms), hms, rfl⟩, ?_, ?_, ?_⟩
    · rw [hkeys]
      exact hperm
    · rw [hkeys]
      exact verbsOf_swapErase_iff hverbs
    · intro verb e he
      exact inOrder_of_mem_endpointsOf hitem (hnames.properties.of_standsIn hin) he

/-! ### Documents with shared parameters -/

/-- A schema of an object with these properties. -/
def listing (names : List String) : Json :=
  .object [("properties", .object (names.map (·, .object [])))]

/-- A Swagger 2 document with one path. -/
def shelfTree (definitions item : List (String × Json)) : Json :=
  .object [("swagger", .string "2.0"), ("definitions", .object definitions),
    ("paths", .object [("/books/{id}", .object item)])]

/-- A book is changed and read under one path, which declares its parameter last. -/
def bookTree : Json :=
  shelfTree [("Book", listing ["title", "author"]), ("Author", listing ["name", "born"])]
    [("put", .object [("parameters", .list [
        .object [("name", .string "body"), ("in", .string "body"),
          ("schema", listing ["title", "author"])]])]),
      ("get", .object [
        ("parameters", .list [.object [("name", .string "lang"), ("in", .string "query")],
          .object [("name", .string "edition"), ("in", .string "query")]]),
        ("responses", .object [("200", .object [("schema", listing ["title", "pages"])])])]),
      ("parameters", .list [.object [("name", .string "id"), ("in", .string "path")]])]

theorem bookTree_order :
    bookTree.WellFormed ∧ Version.detect bookTree = .ok .swagger2 ∧ OrderlyNames bookTree ∧
    ∃ doc : Document, Api.ofJson bookTree = .ok doc.api ∧
      keys doc.api.schemas = ["Book", "Author"] ∧ keys doc.api.routes = ["/books/[id]"] ∧
      ∃ es, ("/books/[id]", es) ∈ doc.api.routes ∧ keys es = [.put, .get] ∧
        ∀ e, (Verb.get, e) ∈ es → e.query.map (·.name) = ["lang", "edition"] := by
  have hv : bookTree.WellFormed := by
    simp [bookTree, shelfTree, listing, keys, or_imp, forall_and, Json.WellFormed.string]
  have hversion : Version.detect bookTree = .ok .swagger2 := rfl
  have hnames : OrderlyNames bookTree :=
    { properties := by simp [bookTree, shelfTree, listing, keys, get?]
      definitions := by decide
      paths := by decide
      items := by decide
      distinct := by decide
      verbs := by decide }
  refine ⟨hv, hversion, hnames, ?_⟩
  obtain ⟨doc, hapi, -, hschemas, -, hroutes, hitems⟩ := document_order hv hversion hnames
  obtain ⟨es, hes, -, horder, hendpoints⟩ := hitems "/books/{id}" _ List.mem_cons_self
  refine ⟨doc, hapi, hschemas, hroutes, es, hes, ?_, ?_⟩
  · refine horder.2 ?_
    rintro ⟨last, hlast, -⟩
    cases hlast
  · intro e he
    obtain ⟨key, w, op, hw, hverb, hop, hin⟩ := hendpoints _ _ he
    rw [hin.query]
    -- the only entry of the item that is read as this verb
    rcases List.mem_cons.1 hw with hw | hw
    · cases hw
      cases hverb
    rcases List.mem_cons.1 hw with hw | hw
    · cases hw
      cases hop
      rfl
    · cases List.mem_singleton.1 hw
      cases hverb

/-- Two operations behind parameters that they share come out in the other order. -/
theorem verbs_displaced :
    let item := [("parameters", Json.list []), ("get", .object []), ("post", .object [])]
    let tree := shelfTree [] item
    tree.WellFormed ∧ Version.detect tree = .ok .swagger2 ∧ OrderlyNames tree ∧
    verbsOf item = [.get, .post] ∧
    ∃ api es, Api.ofJson tree = .ok api ∧ api.routes = [("/books/[id]", es)] ∧
      keys es = [.post, .get] := by
  refine ⟨?_, rfl, ⟨?_, by decide, by decide, by decide, by decide, by decide⟩, rfl, _, _, rfl, rfl,
    rfl⟩
  · simp [shelfTree, keys, or_imp, forall_and, Json.WellFormed.string]
  · simp [shelfTree, keys, get?]

end EndpointBindings
