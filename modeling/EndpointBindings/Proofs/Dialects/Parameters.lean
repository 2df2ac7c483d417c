import EndpointBindings.Proofs.Dialects.References
import EndpointBindings.Proofs.Routes.Parameters

/-!
# Parameters in both dialects

Swagger 2 writes a parameter's keywords into the parameter and a body among the parameters.  Taken
apart and rewritten, its parameters are read as those of OpenAPI 3 are, but for two things that no
endpoint shows: a parameter without keywords has no schema instead of an empty one
(`Parameter.filled`), and form fields are gone (`parametersAt_place`).
-/

namespace EndpointBindings

open Ordered (keys get?)
open Swagger (modernize convertParameter splitItems)

/-! ## Where parameters end up -/

namespace Parameter

/-- A parameter with an empty schema where it has none. -/
def filled (p : Parameter) : Parameter := { p with schema := some (p.schema.getD {}) }

end Parameter

theorem map_filled_placeParameter (ps : List Parameter) (p : Parameter) :
    (placeParameter ps p).map Parameter.filled =
      placeParameter (ps.map Parameter.filled) p.filled := by
  induction ps with
  | nil => rfl
  | cons q ps ih =>
      rw [List.map_cons, placeParameter, placeParameter, ← ih]
      show _ = if q.name = p.name ∧ q.location = p.location then _ else _
      split <;> rfl

theorem map_filled_foldl (ps qs : List Parameter) :
    (ps.foldl placeParameter qs).map Parameter.filled =
      (ps.map Parameter.filled).foldl placeParameter (qs.map Parameter.filled) := by
  induction ps generalizing qs with
  | nil => rfl
  | cons p ps ih =>
      rw [List.foldl_cons, ih, map_filled_placeParameter, List.map_cons, List.foldl_cons]

/-! ## Nodes of parameters -/

theorem namedNodeIn_filled (doc : Document) (p : Parameter) :
    namedNodeIn doc p.filled = namedNodeIn doc p := by
  obtain ⟨name, location, required, schema⟩ := p
  cases schema with
  | none => rfl
  | some s => rfl

/-- The parameters at a location, from the filled parameters that stand there. -/
theorem parametersAt_place (doc : Document) (location : String) (ps : List Parameter) :
    parametersAt doc location (ps.foldl placeParameter []) =
      (((ps.filter (·.location = location)).map Parameter.filled).foldl placeParameter []).map
        (namedNodeIn doc) := by
  have hfilled : namedNodeIn doc ∘ Parameter.filled = namedNodeIn doc :=
    funext (namedNodeIn_filled doc)
  rw [parametersAt, filter_foldl, ← hfilled, ← List.map_map, map_filled_foldl, hfilled]
  rfl

/-! ## One parameter -/

namespace ParameterOutline

/-- What a parameter is read as, with the schema that was read. -/
def read (p : ParameterOutline) (schema : Option Schema) : Parameter where
  name := p.name
  location := p.location.1
  required := p.required
  schema := schema

theorem readParameter?_head (p : ParameterOutline) :
    readParameter? (.object p.head) = some (p.read none) := by
  simp [readParameter?, head, Json.isReference, Json.get?, Json.members?, Parameter.ofJson?,
    Json.record?, Json.field?, Ordered.get?_cons, Json.string?, Json.bool?, read]

theorem readParameter?_schema (p : ParameterOutline) (ms : List (String × Json)) :
    readParameter? (.object (p.head ++ [("schema", Json.object ms)])) =
      some (p.read (some (Schema.ofJson (.object ms)))) := by
  simp [readParameter?, head, Json.isReference, Json.get?, Json.members?, Parameter.ofJson?,
    Json.record?, Json.field?, Ordered.get?_cons, Json.string?, Json.bool?, read, Schema.slot?,
    Schema.ofJson]

/-- The keywords of a parameter are those that conversion gathers. -/
theorem keywords_members (v : Version) (p : ParameterOutline) :
    p.keywords.members v =
      present (p.value.fields v ++ [("items", optionalOutline v p.items)]) := by
  rw [SchemaOutline.members, keywords, SchemaOutline.fields, present, present,
    List.filterMap_append, List.filterMap_append]
  cases p.items <;> rfl

theorem mem_schemaFields {p : ParameterOutline} {e : String × Json}
    (h : e ∈ p.keywords.members .swagger2) : e.1 ∈ Swagger.schemaFields := by
  rw [keywords_members] at h
  have hkey : e.1 ∈ keys (p.value.fields .swagger2 ++
      [("items", optionalOutline .swagger2 p.items)]) :=
    (keys_present_sublist _).subset (Ordered.mem_keys_of_mem h)
  simp [keys, ValueOutline.fields, Version.nullableKey] at hkey
  simp [Swagger.schemaFields]
  grind

theorem get?_toJson_of_not_mem {p : ParameterOutline} {key : String}
    (hhead : get? p.head key = none) (hkey : key ∉ Swagger.schemaFields) :
    get? (p.head ++ p.keywords.members .swagger2) key = none := by
  rw [Ordered.get?_append, hhead, Option.none_or, Ordered.get?_eq_none_iff]
  intro h
  obtain ⟨e, he, rfl⟩ := List.mem_map.1 h
  exact hkey (mem_schemaFields he)

/-- Conversion moves the keywords of a parameter under `schema`. -/
theorem convertParameter_toJson (p : ParameterOutline) :
    convertParameter (p.toJson .swagger2) =
      .object (if (p.keywords.members .swagger2).isEmpty then p.head
        else p.head ++ [("schema", p.keywords.toJson .swagger2)]) := by
  have href : get? (p.head ++ p.keywords.members .swagger2) "$ref" = none :=
    get?_toJson_of_not_mem (by simp [head, Ordered.get?_cons]) (by decide)
  have hschema : get? (p.head ++ p.keywords.members .swagger2) "schema" = none :=
    get?_toJson_of_not_mem (by simp [head, Ordered.get?_cons]) (by decide)
  have hgathered : (p.head ++ p.keywords.members .swagger2).filter
      (Swagger.schemaFields.contains ·.1) = p.keywords.members .swagger2 := by
    have hms : (p.keywords.members .swagger2).filter (Swagger.schemaFields.contains ·.1) =
        p.keywords.members .swagger2 :=
      List.filter_eq_self.2 fun e he => by simpa using mem_schemaFields he
    rw [List.filter_append, hms]
    rfl
  have hothers : (p.head ++ p.keywords.members .swagger2).filter (fun e =>
      !Swagger.schemaFields.contains e.1 && !Swagger.droppedFields.contains e.1) = p.head := by
    have hms : (p.keywords.members .swagger2).filter (fun e =>
        !Swagger.schemaFields.contains e.1 && !Swagger.droppedFields.contains e.1) = [] :=
      List.filter_eq_nil_iff.2 fun e he => by simp [mem_schemaFields he]
    rw [List.filter_append, hms, List.append_nil]
    rfl
  show convertParameter (.object (p.head ++ p.keywords.members .swagger2)) = _
  simp only [convertParameter, Json.isReference, Json.get?, Json.members?, Option.bind_some, href,
    Ordered.has, hschema, hgathered]
  exact congrArg (fun others => Json.object (if (p.keywords.members .swagger2).isEmpty then others
    else others ++ [("schema", p.keywords.toJson .swagger2)])) hothers

/-- What a parameter means: what it is read as, with a schema in any case. -/
def meaning (p : ParameterOutline) : Parameter := p.read (some p.keywords.schema)

theorem readParameter?_openApi3 (p : ParameterOutline) :
    readParameter? (p.toJson .openApi3) = some p.meaning :=
  p.readParameter?_schema (p.keywords.members .openApi3)

theorem modernize_head (p : ParameterOutline) : modernize (.object p.head) = .object p.head :=
  Swagger.modernize_of_not_mem (by simp [head, keys]) (by simp [head, keys])

theorem modernize_head_append (p : ParameterOutline) (v : Json) :
    modernize (.object (p.head ++ [("schema", v)])) =
      .object (p.head ++ [("schema", modernize v)]) :=
  Swagger.modernize_of_not_mem (by simp [head, keys]) (by simp [head, keys])

/-- **A parameter is read alike**, but for an empty schema. -/
theorem readParameter?_swagger2 (p : ParameterOutline) :
    (readParameter? (modernize (convertParameter (p.toJson .swagger2)))).map Parameter.filled =
      some p.meaning := by
  have hschema : Schema.ofJson (modernize (p.keywords.toJson .swagger2)) = p.keywords.schema :=
    p.keywords.ofJson_modernized
  rw [convertParameter_toJson]
  split
  · next hempty =>
      rw [SchemaOutline.toJson, List.isEmpty_iff.1 hempty] at hschema
      rw [modernize_head, readParameter?_head, meaning, ← hschema]
      rfl
  · rw [modernize_head_append, SchemaOutline.toJson, modernize, readParameter?_schema, meaning,
      ← hschema]
    rfl

end ParameterOutline

/-! ## Lists of parameters -/

theorem location?_toJson (p : ParameterOutline) :
    Swagger.location? (p.toJson .swagger2) = some p.location.1 := by
  show (get? (p.head ++ p.keywords.members .swagger2) "in").bind Json.string? = _
  rw [Ordered.get?_append]
  rfl

theorem splitItems_bodies (body : Option SchemaOutline) :
    splitItems (body.toList.map bodyParameter) =
      ([], body.map fun o => Swagger.requestBodyOf (bodyParameter o)) := by
  cases body with
  | none => rfl
  | some o => rfl

/-- Form fields are left out, and a body becomes the body of the request. -/
theorem splitItems_swaggerParameters (ps : List ParameterOutline) (body : Option SchemaOutline) :
    splitItems (swaggerParameters ps body) =
      ((ps.filter (·.location.1 ≠ "formData")).map fun p => convertParameter (p.toJson .swagger2),
        body.map fun o => Swagger.requestBodyOf (bodyParameter o)) := by
  induction ps with
  | nil => exact splitItems_bodies body
  | cons p ps ih =>
      show splitItems (p.toJson .swagger2 :: swaggerParameters ps body) = _
      rw [splitItems, ih, location?_toJson, List.filter_cons]
      simp only
      split
      · next h => exact absurd (Option.some.inj h) p.location.2
      · next h =>
          have hform : p.location.1 = "formData" := Option.some.inj h
          rw [if_neg (by simp [hform])]
      · next hother =>
          have hform : p.location.1 ≠ "formData" := fun h => hother (congrArg some h)
          rw [if_pos (by simpa using hform)]
          rfl

/-! ## What a list of parameters means -/

/-- The parameters of an operation at a location, as nodes. -/
def outlineParametersAt (doc : Document) (location : String) (ps : List ParameterOutline) :
    List NamedNode :=
  (((ps.map ParameterOutline.meaning).filter (·.location = location)).foldl placeParameter []).map
    (namedNodeIn doc)

/-- The Swagger 2 parameters, taken apart and rewritten. -/
def convertedParameters (ps : List ParameterOutline) : List Json :=
  (ps.filter (·.location.1 ≠ "formData")).map fun p =>
    modernize (convertParameter (p.toJson .swagger2))

theorem map_filled_filter (location : String) (ps : List Parameter) :
    (ps.filter (·.location = location)).map Parameter.filled =
      (ps.map Parameter.filled).filter (·.location = location) := by
  rw [List.filter_map]
  rfl

/-- Trees whose parameters are, once filled, those of an outline. -/
theorem parametersAt_of_meaning (doc : Document) (location : String) {shared own : List Json}
    {ps : List ParameterOutline}
    (h : (((shared ++ own).filterMap readParameter?).map Parameter.filled).filter
        (·.location = location) =
      (ps.map ParameterOutline.meaning).filter (·.location = location)) :
    parametersAt doc location (effectiveParameters shared own) =
      outlineParametersAt doc location ps := by
  rw [effectiveParameters, parametersAt_place, map_filled_filter, h, outlineParametersAt]

theorem filterMap_of_some {α β : Type} {f : α → Option β} {g : α → β}
    (h : ∀ a, f a = some (g a)) (as : List α) : as.filterMap f = as.map g := by
  rw [funext h, List.filterMap_eq_map']

theorem parametersAt_openApi3 (doc : Document) (location : String)
    (shared own : List ParameterOutline) :
    parametersAt doc location (effectiveParameters (shared.map (·.toJson .openApi3))
        (own.map (·.toJson .openApi3))) =
      outlineParametersAt doc location (shared ++ own) := by
  apply parametersAt_of_meaning
  rw [← List.map_append, List.filterMap_map, List.map_filterMap]
  congr 1
  refine filterMap_of_some (fun p => ?_) _
  exact congrArg (Option.map Parameter.filled) p.readParameter?_openApi3

/-- Form fields are at no location that an endpoint shows. -/
theorem parametersAt_swagger2 (doc : Document) {location : String} (hform : location ≠ "formData")
    (shared own : List ParameterOutline) :
    parametersAt doc location
        (effectiveParameters (convertedParameters shared) (convertedParameters own)) =
      outlineParametersAt doc location (shared ++ own) := by
  apply parametersAt_of_meaning
  rw [convertedParameters, convertedParameters, ← List.map_append, ← List.filter_append,
    List.filterMap_map, List.map_filterMap]
  have hmeaning (ps : List ParameterOutline) :
      ps.filterMap (fun p => ((readParameter? ∘ fun p : ParameterOutline =>
        modernize (convertParameter (p.toJson .swagger2))) p).map Parameter.filled) =
        ps.map ParameterOutline.meaning :=
    filterMap_of_some (fun p => p.readParameter?_swagger2) ps
  rw [hmeaning, List.filter_map, List.filter_map, List.filter_filter]
  congr 1
  refine List.filter_congr fun p _ => ?_
  show (decide (p.location.1 = location) && decide (p.location.1 ≠ "formData")) =
    decide (p.location.1 = location)
  by_cases h : p.location.1 = location
  · simp [h, hform]
  · simp [h]

/-- Parameters have the same nodes in every document with the same schemas. -/
theorem outlineParametersAt_congr {doc doc' : Document} {table : List (OutlineName × SchemaOutline)}
    (h : HasSchemas doc.raw table) (h' : HasSchemas doc'.raw table) (location : String)
    (ps : List ParameterOutline) :
    outlineParametersAt doc location ps = outlineParametersAt doc' location ps := by
  refine List.map_congr_left fun q hq => ?_
  rcases mem_foldl_placeParameter hq with hq | hq
  · exact absurd hq List.not_mem_nil
  · obtain ⟨p, -, rfl⟩ := List.mem_map.1 (List.mem_filter.1 hq).1
    have hnode := p.keywords.nodeIn_congr h h'
    simp only [namedNodeIn, ParameterOutline.meaning, ParameterOutline.read, Option.map_some,
      Option.getD_some, hnode]

end EndpointBindings
