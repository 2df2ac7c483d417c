import EndpointBindings.Proofs.Dialects.Parameters

/-!
# Operations in both dialects

A body parameter of Swagger 2 becomes a request body, and a body of the path the request body of
each operation without its own; a response's schema goes under the JSON content type.  After the
rewrite both trees of an operation are read as the same operation, its parameters apart
(`OperationOutline.ofJson?_openApi3`, `OperationOutline.ofJson?_swagger2`), and so both give the
same endpoint (`OperationOutline.endpoint`).
-/

namespace EndpointBindings

open Ordered (keys get? mapValues)
open Swagger (modernize convertResponse convertOperation withBody requestBodyOf jsonContent)

/-! ## Content -/

/-- The JSON content with the schema of an outline. -/
def contentOf (o : SchemaOutline) : RefOr Content := .item [("application/json", some o.schema)]

theorem modernize_jsonContent (v : Json) :
    modernize (jsonContent v) = jsonContent (modernize v) := by
  rw [jsonContent, Swagger.modernize_of_not_mem (by simp [keys]) (by simp [keys])]
  show Json.object [("application/json", modernize (.object [("schema", v)]))] = _
  rw [Swagger.modernize_of_not_mem (by simp [keys]) (by simp [keys])]
  rfl

/-- The tree is an object that is read as the schema of the outline. -/
def IsReadAs (v : Json) (o : SchemaOutline) : Prop :=
  ∃ ms, v = .object ms ∧ Schema.ofMembers ms = o.schema

theorem isReadAs_openApi3 (o : SchemaOutline) : IsReadAs (o.toJson .openApi3) o := ⟨_, rfl, rfl⟩

theorem isReadAs_swagger2 (o : SchemaOutline) : IsReadAs (modernize (o.toJson .swagger2)) o :=
  ⟨_, rfl, o.ofJson_modernized⟩

theorem table_jsonContent {r : List (String × Json)} {v : Json} {o : SchemaOutline}
    (hcontent : get? r "content" = some (jsonContent v)) (hv : IsReadAs v o) :
    Json.table r "content" readMediaType? = [("application/json", some o.schema)] := by
  obtain ⟨ms, rfl, hms⟩ := hv
  simp [Json.table, Json.field?, hcontent, jsonContent, Json.members?, Json.entries, readMediaType?,
    Json.record?, get?, Schema.slot?, hms]

theorem readRequestBody_of_content {r : List (String × Json)} {v : Json} {o : SchemaOutline}
    (href : get? r "$ref" = none) (hcontent : get? r "content" = some (jsonContent v))
    (hv : IsReadAs v o) :
    RefOr.ofJson? readRequestBody? (.object r) = some (contentOf o) := by
  simp [RefOr.ofJson?, RefOr.target?, Json.field?, href, readRequestBody?, Json.record?,
    table_jsonContent hcontent hv, contentOf]

theorem readResponse_of_content {r : List (String × Json)} {v : Json} {o : SchemaOutline}
    (href : get? r "$ref" = none) (hcontent : get? r "content" = some (jsonContent v))
    (hv : IsReadAs v o) :
    RefOr.ofJson? readResponse? (.object r) = some (contentOf o) := by
  simp [RefOr.ofJson?, RefOr.target?, Json.field?, href, readResponse?, Json.record?,
    table_jsonContent hcontent hv, contentOf]

/-! ## Bodies -/

theorem readRequestBody_openApi3 (o : SchemaOutline) :
    RefOr.ofJson? readRequestBody? (.object [("content", outlineContent o)]) =
      some (contentOf o) :=
  readRequestBody_of_content (by simp [get?]) rfl (isReadAs_openApi3 o)

theorem requestBodyOf_bodyParameter (o : SchemaOutline) :
    requestBodyOf (bodyParameter o) =
      .object [("content", jsonContent (o.toJson .swagger2)), ("required", .bool true)] := by
  simp [requestBodyOf, bodyParameter, Json.get?, Json.members?, get?]

theorem readRequestBody_swagger2 (o : SchemaOutline) :
    RefOr.ofJson? readRequestBody? (modernize (requestBodyOf (bodyParameter o))) =
      some (contentOf o) := by
  rw [requestBodyOf_bodyParameter, Swagger.modernize_of_not_mem (by simp [keys]) (by simp [keys])]
  refine readRequestBody_of_content (by simp [mapValues, get?]) ?_ (isReadAs_swagger2 o)
  exact congrArg some (modernize_jsonContent (o.toJson .swagger2))

/-! ## Responses -/

/-- What the responses of an operation are read as. -/
def responsesOf (response : Option SchemaOutline) : List (String × RefOr Content) :=
  response.toList.map fun o => ("200", contentOf o)

theorem entries_responses_openApi3 (response : Option SchemaOutline) :
    Json.entries (RefOr.ofJson? readResponse?) (responseMembers .openApi3 response) =
      responsesOf response := by
  cases response with
  | none => rfl
  | some o =>
      have hread : RefOr.ofJson? readResponse?
          (.object [("description", .string ""), ("content", outlineContent o)]) =
            some (contentOf o) :=
        readResponse_of_content (by simp [get?]) (by simp [get?, outlineContent, jsonContent])
          (isReadAs_openApi3 o)
      simp [responseMembers, responsesOf, Json.entries, hread]

theorem convertResponse_toJson (o : SchemaOutline) :
    convertResponse (.object [("description", .string ""), ("schema", o.toJson .swagger2)]) =
      .object [("description", .string ""), ("content", jsonContent (o.toJson .swagger2))] := by
  simp [convertResponse, Json.isReference, Json.get?, Json.members?, get?, Ordered.swapErase,
    Ordered.put]

theorem entries_responses_swagger2 (response : Option SchemaOutline) :
    Json.entries (RefOr.ofJson? readResponse?)
        (mapValues modernize (mapValues convertResponse (responseMembers .swagger2 response))) =
      responsesOf response := by
  cases response with
  | none => rfl
  | some o =>
      have hread : RefOr.ofJson? readResponse? (modernize (.object
          [("description", .string ""), ("content", jsonContent (o.toJson .swagger2))])) =
            some (contentOf o) := by
        rw [Swagger.modernize_of_not_mem (by simp [keys]) (by simp [keys])]
        refine readResponse_of_content (by simp [mapValues, get?]) ?_ (isReadAs_swagger2 o)
        simp [mapValues, get?, modernize_jsonContent]
      simp [responseMembers, responsesOf, Json.entries, convertResponse_toJson, mapValues, hread]

/-! ## Operations -/

namespace OperationOutline

/-- What an operation is read as, with the trees of its parameters. -/
def read (parameters : List Json) (shared : Option SchemaOutline) (o : OperationOutline) :
    Operation where
  parameters := parameters
  requestBody := (o.body <|> shared).map contentOf
  responses := responsesOf o.response

theorem ofJson?_of_members {r : List (String × Json)} {parameters : List Json}
    {responses : List (String × Json)} {shared : Option SchemaOutline} {o : OperationOutline}
    (hparameters : get? r "parameters" = some (.list parameters))
    (hbody : (get? r "requestBody").bind (RefOr.ofJson? readRequestBody?) =
      (o.body <|> shared).map contentOf)
    (hresponses : get? r "responses" = some (.object responses))
    (hread : Json.entries (RefOr.ofJson? readResponse?) responses = responsesOf o.response) :
    Operation.ofJson? (.object r) = some (o.read parameters shared) := by
  simp [Operation.ofJson?, Json.record?, Json.field?, Json.table, hparameters, hbody, hresponses,
    Json.list?, Json.members?, hread, read]

theorem ofJson?_openApi3 (shared : Option SchemaOutline) (o : OperationOutline) :
    Operation.ofJson? (o.toJson .openApi3 shared) =
      some (o.read (o.parameters.map (·.toJson .openApi3)) shared) := by
  refine ofJson?_of_members ?_ ?_ ?_ (entries_responses_openApi3 o.response)
  · rfl
  · cases hbody : (o.body <|> shared) with
    | none => simp [get?]
    | some b =>
        simp [get?]
        exact readRequestBody_openApi3 b
  · cases hbody : (o.body <|> shared) with
    | none => simp [get?]
    | some b => simp [get?]

/-- A body becomes a member of its own, behind the parameters. -/
theorem convertOperation_toJson (shared : Option SchemaOutline) (o : OperationOutline) :
    convertOperation (o.toJson .swagger2 shared) = .object (
      [("parameters", Json.list ((o.parameters.filter (·.location.1 ≠ "formData")).map fun p =>
        Swagger.convertParameter (p.toJson .swagger2)))] ++
      (o.body.toList.map fun b => ("requestBody", requestBodyOf (bodyParameter b))) ++
      [("responses",
        Json.object (mapValues convertResponse (responseMembers .swagger2 o.response)))]) := by
  have hsplit := splitItems_swaggerParameters o.parameters o.body
  cases hbody : o.body with
  | none =>
      rw [hbody] at hsplit
      simp [toJson, convertOperation, Swagger.convertMember, Swagger.splitParameters, Json.list?,
        hbody, hsplit, Ordered.put]
  | some b =>
      rw [hbody] at hsplit
      simp [toJson, convertOperation, Swagger.convertMember, Swagger.splitParameters, Json.list?,
        hbody, hsplit, Ordered.put]

/-- The conversion of an operation of a path that shares a body. -/
def converted (shared : Option SchemaOutline) (o : OperationOutline) : Json :=
  withBody (shared.map fun b => requestBodyOf (bodyParameter b))
    (convertOperation (o.toJson .swagger2 shared))

/-- The members of a converted operation: its own body stands behind the parameters, a shared one
comes last. -/
theorem converted_eq (shared : Option SchemaOutline) (o : OperationOutline) :
    ∃ ms, o.converted shared = .object ms ∧
      ms.Perm (
        [("parameters", .list ((o.parameters.filter (·.location.1 ≠ "formData")).map fun p =>
          Swagger.convertParameter (p.toJson .swagger2))),
        ("responses",
          .object (mapValues convertResponse (responseMembers .swagger2 o.response)))] ++
        ((o.body <|> shared).toList.map fun b =>
          ("requestBody", requestBodyOf (bodyParameter b)))) := by
  rw [converted, convertOperation_toJson]
  cases hbody : o.body with
  | some b =>
      refine ⟨_, ?_, .cons _ (.swap _ _ [])⟩
      cases shared with
      | none => rfl
      | some b' => simp [withBody, Ordered.has, get?]
  | none =>
      cases shared with
      | none => exact ⟨_, rfl, .refl _⟩
      | some b' => exact ⟨_, by simp [withBody, Ordered.has, get?], .refl _⟩

theorem modernize_responses (response : Option SchemaOutline) :
    modernize (.object (mapValues convertResponse (responseMembers .swagger2 response))) =
      .object (mapValues modernize
        (mapValues convertResponse (responseMembers .swagger2 response))) := by
  apply Swagger.modernize_of_not_mem
  all_goals
    rw [Ordered.keys_mapValues]
    cases response <;> simp [responseMembers, keys]

theorem ofJson?_swagger2 (shared : Option SchemaOutline) (o : OperationOutline) :
    Operation.ofJson? (modernize (o.converted shared)) =
      some (o.read (convertedParameters o.parameters) shared) := by
  obtain ⟨ms, hms, hperm⟩ := o.converted_eq shared
  have hkeys := Ordered.keys_perm hperm
  have hnodup : (keys ms).Nodup := by
    refine hkeys.nodup_iff.2 ?_
    cases o.body <|> shared <;> simp [keys]
  have hnull : "x-nullable" ∉ keys ms := by
    refine fun h => absurd (hkeys.mem_iff.1 h) ?_
    cases o.body <|> shared <;> simp [keys]
  have href : "$ref" ∉ keys ms := by
    refine fun h => absurd (hkeys.mem_iff.1 h) ?_
    cases o.body <|> shared <;> simp [keys]
  rw [hms, Swagger.modernize_of_not_mem hnull href]
  refine ofJson?_of_members ?_ ?_ ?_ (entries_responses_swagger2 o.response)
  · rw [Ordered.get?_mapValues, Ordered.get?_perm hnodup hperm]
    simp [get?, modernize, Swagger.modernizeItems_eq, convertedParameters]
  · rw [Ordered.get?_mapValues, Ordered.get?_perm hnodup hperm]
    cases o.body <|> shared with
    | none => simp [get?]
    | some b =>
        simp [get?]
        exact readRequestBody_swagger2 b
  · rw [Ordered.get?_mapValues, Ordered.get?_perm hnodup hperm, ← modernize_responses]
    simp [get?]

/-! ## Endpoints -/

/-- The endpoint of an operation of a path, in a document with the schemas. -/
def endpoint (doc : Document) (p : PathOutline) (verb : Verb) (o : OperationOutline) :
    Endpoint where
  verb := verb
  response := o.response.map fun s => nodeIn doc s.schema
  body := (o.body <|> p.body).map fun s => nodeIn doc s.schema
  query := outlineParametersAt doc "query" (p.parameters ++ o.parameters)
  pathParams := outlineParametersAt doc "path" (p.parameters ++ o.parameters)

theorem contentNode_map (doc : Document) (s : Option SchemaOutline) :
    contentNode doc (s.map contentOf) = s.map fun o => nodeIn doc o.schema := by
  cases s <;> rfl

theorem get?_responsesOf (response : Option SchemaOutline) :
    get? (responsesOf response) "200" = response.map contentOf := by
  cases response <;> rfl

theorem endpointAt?_of_read {doc : Document} {p : PathOutline} {verb : Verb} {o : OperationOutline}
    {shared own : List Json} {tree : Json}
    (htree : Operation.ofJson? tree = some (o.read own p.body))
    (hparameters : ∀ location, location ≠ "formData" →
      parametersAt doc location (effectiveParameters shared own) =
        outlineParametersAt doc location (p.parameters ++ o.parameters)) :
    endpointAt? doc shared (verb.key, tree) = some (verb, o.endpoint doc p verb) := by
  have hverb : Verb.ofKey? verb.key = some verb := by cases verb <;> rfl
  have hquery := hparameters "query" (by decide)
  have hpath := hparameters "path" (by decide)
  simp [endpointAt?, hverb, htree, endpointOf, read, contentNode_map, get?_responsesOf, hquery,
    hpath, endpoint]

theorem endpointAt?_openApi3 (doc : Document) (p : PathOutline) (verb : Verb)
    (o : OperationOutline) :
    endpointAt? doc (p.parameters.map (·.toJson .openApi3))
        (verb.key, o.toJson .openApi3 p.body) = some (verb, o.endpoint doc p verb) :=
  endpointAt?_of_read (o.ofJson?_openApi3 p.body) fun location _ =>
    parametersAt_openApi3 doc location p.parameters o.parameters

theorem endpointAt?_swagger2 (doc : Document) (p : PathOutline) (verb : Verb)
    (o : OperationOutline) :
    endpointAt? doc (convertedParameters p.parameters)
        (verb.key, modernize (o.converted p.body)) = some (verb, o.endpoint doc p verb) :=
  endpointAt?_of_read (o.ofJson?_swagger2 p.body) fun _ hform =>
    parametersAt_swagger2 doc hform p.parameters o.parameters

/-- **An operation is the same endpoint in every document with the same schemas.** -/
theorem endpoint_congr {doc doc' : Document} {table : List (OutlineName × SchemaOutline)}
    (h : HasSchemas doc.raw table) (h' : HasSchemas doc'.raw table) (p : PathOutline) (verb : Verb)
    (o : OperationOutline) : o.endpoint doc p verb = o.endpoint doc' p verb := by
  have hnode : (fun s : SchemaOutline => nodeIn doc s.schema) = fun s => nodeIn doc' s.schema :=
    funext fun s => s.nodeIn_congr h h'
  simp only [endpoint, hnode, outlineParametersAt_congr h h']

end OperationOutline

end EndpointBindings
