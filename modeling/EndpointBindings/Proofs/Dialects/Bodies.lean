import EndpointBindings.Proofs.Dialects.DocumentOrder
import EndpointBindings.Proofs.Dialects.Operations
import EndpointBindings.Proofs.Routes.Extraction

/-!
# Bodies after the conversion

Swagger 2 writes a body among the parameters, of an operation or of the path that it is below.  The
conversion takes both lists apart: bodies and form fields leave them, and of several bodies the last
one counts (`splitItems_eq`, `lastBody`).  An operation without a request body gets the one of its
own list, or else the one of the path (`convertEntry_operation`).

What is read in the end has gone through the rewrite of the whole tree and through lenient readers,
and still comes from that one parameter (`bodyNode`).

| | |
| :-- | :-- |
| `bodyNode doc p` | the node of the body that a parameter describes |
| `FromLists` | what an operation takes from the two lists |
| `operation_bodies` | the theorem |
-/

namespace EndpointBindings

open Ordered (get? keys mapValues)
open Swagger (modernize modernizeMembers renameNullable convertParameter convertEntry
  convertPathItem convertedMember sharedBody sharedMember splitParameters requestBodyOf)

/-! ## Lists of parameters, taken apart -/

/-- Whatever stands where a list should is taken apart as one. -/
theorem splitParameters_eq {ms : List (String × Json)} {u : Json}
    (hu : get? ms "parameters" = some u) : splitParameters u =
      (((listedParameters ms).filter staysParameter).map convertParameter,
        (lastBody (listedParameters ms)).map requestBodyOf) := by
  rw [splitParameters, splitItems_eq, listedParameters, Json.field?, hu, Option.bind_some]

theorem listedParameters_of_none {ms : List (String × Json)}
    (h : get? ms "parameters" = none) : listedParameters ms = [] := by
  rw [listedParameters, Json.field?, h]
  rfl

theorem sharedBody_eq (ms : List (String × Json)) :
    sharedBody ms = (lastBody (listedParameters ms)).map requestBodyOf := by
  rw [sharedBody]
  cases hu : get? ms "parameters" with
  | none =>
      rw [listedParameters_of_none hu]
      rfl
  | some u => rw [Option.bind_some, splitParameters_eq hu]

/-- A rewritten list holds what it held, rewritten. -/
theorem listedParameters_rewritten {ms : List (String × Json)} (hnodup : (keys ms).Nodup) :
    listedParameters (renameNullable (modernizeMembers ms)) =
      (listedParameters ms).map modernize :=
  listedParameters_map_modernize (get?_rewritten hnodup (by decide))

/-! ## Operations -/

/-- An operation without a request body gets one from its parameters. -/
theorem get?_requestBody_converted {ms : List (String × Json)} (hnodup : (keys ms).Nodup)
    (hnone : "requestBody" ∉ keys ms) :
    get? (Ordered.ofWrites (ms.flatMap convertedMember)) "requestBody" =
      (lastBody (listedParameters ms)).map requestBodyOf := by
  have hsource : ∀ v, ("requestBody", v) ∈ ms.flatMap convertedMember →
      (lastBody (listedParameters ms)).map requestBodyOf = some v := by
    intro v hv
    obtain ⟨⟨key, u⟩, hu, hv⟩ := List.mem_flatMap.1 hv
    obtain he | ⟨hkey, hbody⟩ := Swagger.mem_convertedMember_requestBody hv
    · cases he
      exact absurd (Ordered.mem_keys_of_mem hu) hnone
    · cases hkey
      rw [← hbody, splitParameters_eq (Ordered.get?_of_mem hnodup hu)]
  cases hbody : (lastBody (listedParameters ms)).map requestBodyOf with
  | none =>
      rw [Ordered.get?_eq_none_iff, Ordered.keys_ofWrites, List.mem_eraseDups]
      intro h
      obtain ⟨⟨_, v⟩, hv, rfl⟩ := List.mem_map.1 h
      cases hbody.symm.trans (hsource v hv)
  | some body =>
      have hlisted : ∃ u, get? ms "parameters" = some u := by
        rw [← Option.isSome_iff_exists, Option.isSome_iff_ne_none]
        intro hu
        rw [listedParameters_of_none hu] at hbody
        cases hbody
      obtain ⟨u, hu⟩ := hlisted
      have hsplit : (splitParameters u).2 = some body := by rw [splitParameters_eq hu, hbody]
      refine Ordered.get?_ofWrites_of_unique (List.mem_flatMap.2 ⟨_, Ordered.mem_of_get? hu, ?_⟩) ?_
      · rw [convertedMember, if_neg (by simp [Swagger.droppedMembers]), if_pos rfl, hsplit]
        exact List.mem_cons_of_mem _ List.mem_cons_self
      · intro v hv
        exact Option.some.inj ((hsource v hv).symm.trans hbody)

/-- **What the conversion makes of an operation's two members.** -/
theorem convertEntry_operation (body : Option Json) {key : String} (hkey : key ∈ Verb.keys)
    {ms : List (String × Json)} (hnodup : (keys ms).Nodup) (hnone : "requestBody" ∉ keys ms) :
    ∃ ns, (convertEntry body (key, .object ms)).2 = .object ns ∧ (keys ns).Nodup ∧
      listedParameters ns = ((listedParameters ms).filter staysParameter).map convertParameter ∧
      get? ns "requestBody" = ((lastBody (listedParameters ms)).map requestBodyOf).or body := by
  obtain ⟨ns, hns, hkeys, hparameters, hbody⟩ :=
    Swagger.exists_withBody body (Ordered.ofWrites (ms.flatMap convertedMember))
  refine ⟨ns, ?_, hkeys (Ordered.nodup_keys_ofWrites _), ?_, ?_⟩
  · rw [convertEntry, if_pos (List.contains_iff_mem.2 hkey), Swagger.convertOperation_object, hns]
  · rw [listedParameters, Json.field?, hparameters, Swagger.get?_convertedMembers hnodup
      (by decide)]
    cases hu : get? ms "parameters" with
    | none =>
        rw [listedParameters_of_none hu]
        rfl
    | some u =>
        show (splitParameters u).1 = _
        rw [splitParameters_eq hu]
  · rw [hbody, get?_requestBody_converted hnodup hnone]

/-! ## What is read -/

/-- The node of the body that a parameter describes: of its schema, rewritten, and of any value when
there is none.  A schema that is null makes no body. -/
def bodyNode (doc : Document) (p : Json) : Option Node :=
  match p.get? "schema" with
  | none => some .any
  | some .null => none
  | some s => some (nodeIn doc (Schema.ofJson (modernize s)))

/-- JSON content is read with the schema in its slot. -/
theorem readRequestBody_jsonContent {r : List (String × Json)} {s : Json}
    (href : get? r "$ref" = none) (hcontent : get? r "content" = some (Swagger.jsonContent s)) :
    RefOr.ofJson? readRequestBody? (.object r) =
      some (.item [("application/json", Schema.slot? s)]) := by
  have htable : Json.table r "content" readMediaType? =
      [("application/json", Schema.slot? s)] := by
    rw [Json.table, Json.field?, hcontent]
    rfl
  simp only [RefOr.ofJson?, RefOr.target?, Json.field?, href, Option.bind_none, readRequestBody?,
    Json.record?, Option.bind_eq_bind, Option.bind_some, htable, Option.pure_def, Option.map_some]

/-- A rewritten request body is read as the JSON content with the schema of its parameter. -/
theorem readRequestBody_requestBodyOf (p : Json) :
    RefOr.ofJson? readRequestBody? (modernize (requestBodyOf p)) =
      some (.item [("application/json",
        Schema.slot? (modernize ((p.get? "schema").getD (.object []))))]) := by
  obtain ⟨ms, hms, hkeys, hcontent⟩ : ∃ ms, requestBodyOf p = .object ms ∧
      keys ms ⊆ ["description", "content", "required"] ∧
      get? ms "content" =
        some (Swagger.jsonContent ((p.get? "schema").getD (.object []))) := by
    rw [requestBodyOf]
    cases p.get? "description" <;> exact ⟨_, rfl, by simp [keys], rfl⟩
  have hfresh : ∀ key ∉ ["description", "content", "required"], key ∉ keys ms :=
    fun key hkey h => hkey (hkeys h)
  have href := hfresh "$ref" (by decide)
  rw [hms, Swagger.modernize_of_not_mem (hfresh _ (by decide)) href]
  apply readRequestBody_jsonContent
  · rw [Ordered.get?_mapValues, Ordered.get?_eq_none_iff.2 href, Option.map_none]
  · rw [Ordered.get?_mapValues, hcontent, Option.map_some, modernize_jsonContent]

theorem nodeIn_slot (doc : Document) (p : Json) :
    (Schema.slot? (modernize ((p.get? "schema").getD (.object [])))).map (nodeIn doc) =
      bodyNode doc p := by
  rw [bodyNode]
  cases p.get? "schema" with
  | none =>
      show some (nodeIn doc {}) = some .any
      rw [nodeIn_of_plain rfl]
      rfl
  | some s => cases s <;> rfl

/-- The body that a parameter describes, all the way to its node. -/
theorem contentNode_requestBodyOf (doc : Document) (body : Option Json) :
    contentNode doc ((body.map fun p => modernize (requestBodyOf p)).bind
      (RefOr.ofJson? readRequestBody?)) = body.bind (bodyNode doc) := by
  cases body with
  | none => rfl
  | some p =>
      rw [Option.map_some, Option.bind_some, readRequestBody_requestBodyOf, Option.bind_some,
        ← nodeIn_slot]
      rfl

/-- A converted operation is read with the parameters that stay and with the body that counts. -/
theorem exists_convertedOperation {key : String} (hkey : key ∈ Verb.keys)
    (item : List (String × Json)) {ms : List (String × Json)} (hnodup : (keys ms).Nodup)
    (hnone : "requestBody" ∉ keys ms) :
    ∃ op, Operation.ofJson?
        (modernize (convertEntry (sharedBody item) (key, .object ms)).2) = some op ∧
      op.parameters = ((listedParameters ms).filter staysParameter).map
        (modernize ∘ convertParameter) ∧
      ∀ doc, contentNode doc op.requestBody = ((lastBody (listedParameters ms)).or
        (lastBody (listedParameters item))).bind (bodyNode doc) := by
  obtain ⟨ns, hns, hkeys, hparameters, hbody⟩ :=
    convertEntry_operation (sharedBody item) hkey hnodup hnone
  rw [sharedBody_eq, ← Option.map_or] at hbody
  refine ⟨_, by rw [hns, modernize]; rfl, ?_, fun doc => ?_⟩
  · rw [← List.map_map, ← hparameters]
    exact listedParameters_rewritten hkeys
  · show contentNode doc (Json.field? (renameNullable (modernizeMembers ns)) "requestBody"
      (RefOr.ofJson? readRequestBody?)) = _
    rw [Json.field?, get?_rewritten hkeys (by decide), hbody, Option.map_map]
    exact contentNode_requestBodyOf doc _

/-! ## Path items -/

theorem get?_map_convertEntry (body : Option Json) (ms : List (String × Json)) (key : String) :
    get? (ms.map (convertEntry body)) key =
      (get? ms key).map fun v => (convertEntry body (key, v)).2 := by
  induction ms with
  | nil => rfl
  | cons e ms ih =>
      rw [List.map_cons, Ordered.get?_cons, Ordered.get?_cons, Swagger.convertEntry_fst, ih]
      split
      · next h => rw [Option.map_some, ← h]
      · rfl

theorem get?_sharedMember (ms : List (String × Json)) (key : String) :
    get? (sharedMember ms) key = if key = "parameters" then
      (get? ms "parameters").map (fun u => .list (splitParameters u).1) else none := by
  rw [sharedMember]
  cases get? ms "parameters" with
  | none =>
      rw [Option.map_none, ite_self]
      rfl
  | some u =>
      by_cases h : key = "parameters"
      · rw [if_pos h, h]
        rfl
      · rw [if_neg h, Ordered.get?_cons, if_neg (Ne.symm h)]
        rfl

/-- The members of a converted path item, which may be named like the mark of null. -/
theorem exists_convertedMembers {ms : List (String × Json)} (hnodup : (keys ms).Nodup) :
    ∃ ns, convertPathItem (.object ms) = .object ns ∧ (keys ns).Nodup ∧
      listedParameters ns = ((listedParameters ms).filter staysParameter).map convertParameter ∧
      ∀ key, key ≠ "parameters" →
        get? ns key = (get? ms key).map fun v => (convertEntry (sharedBody ms) (key, v)).2 := by
  refine ⟨_, Swagger.convertPathItem_object ms, ?_, ?_, fun key hkey => ?_⟩
  · rw [Ordered.keys_append, Swagger.keys_map_convertEntry, sharedMember]
    have herased := Ordered.nodup_keys_swapErase hnodup "parameters"
    cases get? ms "parameters" with
    | none => exact herased
    | some u => exact List.nodup_cons.2 ⟨not_mem_keys_swapErase hnodup _, herased⟩
  · rw [listedParameters, Json.field?, Ordered.get?_append, get?_sharedMember, if_pos rfl,
      get?_map_convertEntry, Ordered.get?_swapErase hnodup, if_pos rfl, Option.map_none,
      Option.or_none]
    cases hu : get? ms "parameters" with
    | none =>
        rw [listedParameters_of_none hu]
        rfl
    | some u =>
        show (splitParameters u).1 = _
        rw [splitParameters_eq hu]
  · rw [Ordered.get?_append, get?_sharedMember, if_neg hkey, get?_map_convertEntry,
      Ordered.get?_swapErase hnodup, if_neg (Ne.symm hkey), Option.none_or]

/-- A converted path item is read with the shared parameters that stay, and with an operation under
each verb of the item. -/
theorem exists_convertedItem {ms : List (String × Json)} (hnodup : (keys ms).Nodup) :
    ∃ item : PathItem, PathItem.ofJson? (modernize (convertPathItem (.object ms))) = some item ∧
      item.parameters = ((listedParameters ms).filter staysParameter).map
        (modernize ∘ convertParameter) ∧
      ∀ key ∈ Verb.keys, ∀ v, (key, v) ∈ ms →
        (key, modernize (convertEntry (sharedBody ms) (key, v)).2) ∈ item.entries := by
  obtain ⟨ns, hns, hkeys, hparameters, hentries⟩ := exists_convertedMembers hnodup
  refine ⟨_, by rw [hns, modernize]; rfl, ?_, fun key hkey v hv => ?_⟩
  · rw [← List.map_map, ← hparameters]
    exact listedParameters_rewritten hkeys
  · have hverbs : ∀ key ∈ Verb.keys,
        key ∉ ["$ref", "x-nullable", "nullable"] ∧ key ≠ "parameters" := by
      decide
    obtain ⟨hplain, hother⟩ := hverbs key hkey
    refine List.mem_filter.2 ⟨Ordered.mem_of_get? ?_, by simpa using hother⟩
    rw [get?_rewritten hkeys hplain, hentries key hother, Ordered.get?_of_mem hnodup hv]
    rfl

/-! ## Documents -/

/-- The path under which the conversion leaves a path: the rewrite takes one that is named like the
mark of null for that mark. -/
def convertedPath (path : String) : String := if path = "x-nullable" then "nullable" else path

/-- The conversion writes another path over this one. -/
def Overwritten (v : Json) (path : String) : Prop :=
  path = "nullable" ∧ "x-nullable" ∈ keys (v.tableAt "paths")

theorem get?_renameNullable_convertedPath {ps : List (String × Json)} (hnodup : (keys ps).Nodup)
    {path : String} {w : Json} (hw : get? ps path = some w)
    (hstays : ¬ (path = "nullable" ∧ "x-nullable" ∈ keys ps)) :
    get? (renameNullable ps) (convertedPath path) = some w := by
  rw [Swagger.get?_renameNullable hnodup, convertedPath]
  by_cases hmark : path = "x-nullable"
  · rw [if_pos hmark, if_pos rfl, ← hmark, hw, Option.some_or]
  · rw [if_neg hmark]
    by_cases hnull : path = "nullable"
    · have hfree : get? ps "x-nullable" = none :=
        Ordered.get?_eq_none_iff.2 fun h => hstays ⟨hnull, h⟩
      rw [if_pos hnull, hfree, Option.none_or, ← hnull, hw]
    · rw [if_neg hnull, if_neg hmark, hw]

/-- A converted path item is one of the typed view. -/
theorem mem_paths_convertedSpec {v : Json} (hv : v.WellFormed) {path : String}
    {ms : List (String × Json)} (hpath : (path, .object ms) ∈ v.tableAt "paths")
    (hstays : ¬ Overwritten v path) {item : PathItem}
    (hitem : PathItem.ofJson? (modernize (convertPathItem (.object ms))) = some item) :
    (convertedPath path, item) ∈ (convertedSpec v).paths := by
  have hnodup := nodup_keys_tableAt hv "paths"
  have hkeys : keys (modernizeMembers (mapValues convertPathItem (v.tableAt "paths"))) =
      keys (v.tableAt "paths") := by
    rw [Swagger.keys_modernizeMembers, Ordered.keys_mapValues]
  have hentry : get? (modernizeMembers (mapValues convertPathItem (v.tableAt "paths"))) path =
      some (modernize (convertPathItem (.object ms))) := by
    rw [Swagger.get?_modernizeMembers, Ordered.get?_mapValues, Ordered.get?_of_mem hnodup hpath]
    rfl
  show _ ∈ Json.entries PathItem.ofJson? _
  rw [tableAt_paths_converted]
  refine List.mem_filterMap.2 ⟨(convertedPath path, modernize (convertPathItem (.object ms))), ?_,
    by simp only [hitem, Option.map_some]⟩
  exact Ordered.mem_of_get? (get?_renameNullable_convertedPath (hkeys ▸ hnodup) hentry
    (hkeys ▸ hstays))

/-! ## The theorem -/

/-- An operation takes its parameters and its body from the list of its path and from its own. -/
structure DeclaredOperation.FromLists (o : DeclaredOperation) (doc : Document)
    (shared own : List Json) : Prop where
  /-- What stays a parameter is there in order, converted and rewritten. -/
  sharedParameters : o.item.parameters =
    (shared.filter staysParameter).map (modernize ∘ convertParameter)
  ownParameters : o.operation.parameters =
    (own.filter staysParameter).map (modernize ∘ convertParameter)
  /-- The last body counts, and one of the operation before one of the path. -/
  body : (o.endpoint doc).body = ((lastBody own).or (lastBody shared)).bind (bodyNode doc)

/-- **Which body an operation gets.**  A Swagger 2 document is read as an API.  An operation in it,
an object under a verb in lower case and without a request body, is one of the converted document,
unless its path is written over.  Of its own list of parameters and of the one that its path shares,
bodies and form fields are gone and the others are kept in order.  Its body is the last one of its
own list, or else the last one of the path's list, or else there is none; and what the route table
holds for it, when no other operation takes its place, is the endpoint with this body. -/
theorem operation_bodies {v : Json} (hv : v.WellFormed)
    (hversion : Version.detect v = .ok .swagger2) :
    ∃ doc, Document.ofJson (Swagger.convert v) = .ok doc ∧ Api.ofJson v = .ok doc.api ∧
      ∀ path item key op, (path, .object item) ∈ v.tableAt "paths" → (key, .object op) ∈ item →
        key ∈ Verb.keys → "requestBody" ∉ keys op →
        ∃ o : DeclaredOperation, o.path = convertedPath path ∧ o.key = key ∧
          Verb.ofKey? key = some o.verb ∧
          o.FromLists doc (listedParameters item) (listedParameters op) ∧
          (¬ Overwritten v path → o ∈ doc.operations) ∧
          (doc.Keeps o →
            doc.api.endpoint? (normalizePath o.path) o.verb = some (o.endpoint doc)) := by
  let doc : Document := ⟨Swagger.convert v, convertedSpec v⟩
  have hdoc : Document.ofJson (Swagger.convert v) = .ok doc := ofJson_convert v
  refine ⟨doc, hdoc, Api.ofJson_of_document (toOpenApi3_of_swagger2 hversion) hdoc, ?_⟩
  intro path item key op hpath hop hkey hnone
  have hitem : (Json.object item).WellFormed := hv.of_standsIn (standsIn_of_mem_tableAt hpath)
  have hwf : (Json.object op).WellFormed := hitem.of_standsIn (.member hop .whole)
  obtain ⟨hitemNodup, -⟩ := Json.wellFormed_object_iff.1 hitem
  obtain ⟨hopNodup, -⟩ := Json.wellFormed_object_iff.1 hwf
  obtain ⟨read, hread, hshared, hentries⟩ := exists_convertedItem hitemNodup
  obtain ⟨operation, hoperation, hown, hbody⟩ :=
    exists_convertedOperation hkey item hopNodup hnone
  obtain ⟨verb, hverb⟩ : ∃ verb, Verb.ofKey? key = some verb := by
    have hverbs : ∀ key ∈ Verb.keys, (Verb.ofKey? key).isSome := by decide
    exact Option.isSome_iff_exists.1 (hverbs key hkey)
  refine ⟨⟨convertedPath path, read, key, verb, operation⟩, rfl, rfl, hverb,
    ⟨hshared, hown, hbody doc⟩, fun hstays => ?_, fun hkept => ?_⟩
  · exact Document.mem_operations_iff.2 ⟨mem_paths_convertedSpec hv hpath hstays hread, hverb, _,
      hentries key hkey _ hop, hoperation⟩
  · exact (doc.endpoint?_eq_some_iff _ _ _).2 ⟨_, Document.mem_kept_iff.2 hkept, rfl, rfl, rfl⟩

/-! ### Two operations below a path with a body -/

/-- A body parameter with a schema. -/
def bodyElement (schema : Json) : Json := .object [("in", .string "body"), ("schema", schema)]

/-- A form field. -/
def formElement : Json := .object [("name", .string "file"), ("in", .string "formData")]

/-- A reference to a parameter. -/
def referenceElement : Json := .object [("$ref", .string "#/parameters/page")]

/-- An operation with two bodies of its own, the second of which is a definition. -/
def sendNote : List (String × Json) :=
  [("parameters", .list [bodyElement .null, formElement, referenceElement,
    bodyElement (.object [("$ref", .string "#/definitions/Note")])])]

/-- A path that shares a text as the body of its operations. -/
def notePath : List (String × Json) :=
  [("parameters", .list [bodyElement (.object [("type", .string "string")])]),
    ("post", .object sendNote), ("put", .object [])]

def noteBodyTree : Json :=
  .object [("swagger", .string "2.0"), ("paths", .object [("/notes", .object notePath)])]

theorem note_bodies :
    noteBodyTree.WellFormed ∧ Version.detect noteBodyTree = .ok .swagger2 ∧
    ∃ doc : Document, Api.ofJson noteBodyTree = .ok doc.api ∧
      ∃ post ∈ doc.operations, ∃ put ∈ doc.operations,
        post.path = "/notes" ∧ post.key = "post" ∧ put.path = "/notes" ∧ put.key = "put" ∧
        (post.endpoint doc).body =
          some (nodeIn doc { facets := { ref := some "#/components/schemas/Note" } }) ∧
        post.operation.parameters =
          [.object [("$ref", .string "#/components/parameters/page")]] ∧
        (put.endpoint doc).body =
          some (nodeIn doc { facets := { types := some (.single "string") } }) ∧
        put.item.parameters = [] := by
  have hwf : noteBodyTree.WellFormed := by
    simp [noteBodyTree, notePath, sendNote, bodyElement, formElement, referenceElement, keys,
      or_imp, forall_and, Json.WellFormed.string, Json.WellFormed.null]
  have hversion : Version.detect noteBodyTree = .ok .swagger2 := rfl
  obtain ⟨doc, -, hapi, hall⟩ := operation_bodies hwf hversion
  have hpath : ("/notes", Json.object notePath) ∈ noteBodyTree.tableAt "paths" :=
    List.mem_cons_self
  have hstays : ¬ Overwritten noteBodyTree "/notes" := fun h => absurd h.1 (by decide)
  obtain ⟨post, hpostPath, hpostKey, -, hpost, hpostThere, -⟩ := hall "/notes" notePath "post"
    sendNote hpath (List.mem_cons_of_mem _ List.mem_cons_self) (by decide) (by decide)
  obtain ⟨put, hputPath, hputKey, -, hput, hputThere, -⟩ := hall "/notes" notePath "put" [] hpath
    (List.mem_cons_of_mem _ (List.mem_cons_of_mem _ List.mem_cons_self)) (by decide) (by decide)
  exact ⟨hwf, hversion, doc, hapi, post, hpostThere hstays, put, hputThere hstays, hpostPath,
    hpostKey, hputPath, hputKey, hpost.body, hpost.ownParameters, hput.body,
    hput.sharedParameters⟩

end EndpointBindings
