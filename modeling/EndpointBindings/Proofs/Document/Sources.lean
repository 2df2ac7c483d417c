import EndpointBindings.Proofs.Json.WellFormed
import EndpointBindings.Proofs.Routes.Parameters
import EndpointBindings.Proofs.Schema.Keywords
import Mathlib.Data.List.Basic

/-!
# Where what is read stands

A document is read slot by slot: records into fields, tables into entries, and at last the schemas
of bodies, responses and parameters.  Every one of these readers reads a tree that stands inside the
one it is given, and so every schema of an operation is the reading of a tree inside the operation
(`Operation.standsIn_of_contentSchema?`, `exists_of_mem_effectiveParameters`).  What holds of all
trees inside a tree, that each has its keys once or refers only to what the whole refers to, then
holds of the schemas.
-/

namespace EndpointBindings

open Ordered (keys)

/-! ## Records and tables -/

namespace Json

/-- A field of a record stands in the tree. -/
theorem standsIn_of_record? {v w : Json} {fields : List String} {r : Ordered String Json}
    {name : String} (hr : v.record? fields = some r) (hw : Ordered.get? r name = some w) :
    w.StandsIn v := by
  have hmem := Ordered.mem_of_get? hw
  cases v with
  | object ms =>
      cases hr
      exact .member hmem .whole
  | list xs =>
      rw [record?] at hr
      split at hr
      · cases hr
        exact .item (List.of_mem_zip hmem).2 .whole
      · cases hr
  | null | bool _ | number _ | string _ => cases hr

theorem exists_of_field? {α : Type} {v : Json} {fields : List String} {r : Ordered String Json}
    {name : String} {read : Json → Option α} {a : α} (hr : v.record? fields = some r)
    (ha : field? r name read = some a) : ∃ w, w.StandsIn v ∧ read w = some a := by
  obtain ⟨w, hw, hread⟩ := Option.bind_eq_some_iff.1 ha
  exact ⟨w, standsIn_of_record? hr hw, hread⟩

theorem eq_of_members? {v : Json} {ms : List (String × Json)} (h : v.members? = some ms) :
    v = object ms := by
  cases v with
  | object ns =>
      cases h
      rfl
  | null | bool _ | number _ | string _ | list _ => cases h

/-- An entry of a table is read from a member of an object in the record. -/
theorem exists_of_mem_table {α : Type} {r : Ordered String Json} {name key : String}
    {read : Json → Option α} {a : α} (ha : (key, a) ∈ table r name read) :
    ∃ ms w, Ordered.get? r name = some (object ms) ∧ (key, w) ∈ ms ∧ read w = some a := by
  obtain ⟨⟨_, w⟩, hmem, hread⟩ := List.mem_filterMap.1 ha
  obtain ⟨_, hread, he⟩ := Option.map_eq_some_iff.1 hread
  cases he
  rw [field?] at hmem
  cases hfield : (Ordered.get? r name).bind members? with
  | none =>
      rw [hfield] at hmem
      exact absurd hmem List.not_mem_nil
  | some ms =>
      rw [hfield] at hmem
      obtain ⟨v, hv, hms⟩ := Option.bind_eq_some_iff.1 hfield
      exact ⟨ms, w, by rw [hv, eq_of_members? hms], hmem, hread⟩

/-- Such an entry stands in the tree. -/
theorem standsIn_of_mem_table {α : Type} {v : Json} {fields : List String}
    {r : Ordered String Json} {name key : String} {read : Json → Option α} {a : α}
    (hr : v.record? fields = some r) (ha : (key, a) ∈ table r name read) :
    ∃ w, w.StandsIn v ∧ read w = some a := by
  obtain ⟨ms, w, hms, hw, hread⟩ := exists_of_mem_table ha
  exact ⟨w, .trans (.member hw .whole) (standsIn_of_record? hr hms), hread⟩

/-- A table of a tree has each key once. -/
theorem nodup_keys_table {α : Type} {v : Json} {fields : List String} {r : Ordered String Json}
    (hv : v.WellFormed) (hr : v.record? fields = some r) (name : String)
    (read : Json → Option α) : (keys (table r name read)).Nodup := by
  rw [table, field?]
  cases hfield : (Ordered.get? r name).bind members? with
  | none => exact List.nodup_nil
  | some ms =>
      obtain ⟨w, hw, hms⟩ := Option.bind_eq_some_iff.1 hfield
      obtain rfl := eq_of_members? hms
      obtain ⟨hkeys, -⟩ := wellFormed_object_iff.1 (hv.of_standsIn (standsIn_of_record? hr hw))
      refine hkeys.sublist (Ordered.map_filterMap_sublist ?_)
      rintro ⟨key, u⟩ - ⟨key', a⟩ ha
      obtain ⟨_, -, he⟩ := Option.map_eq_some_iff.1 ha
      exact (congrArg Prod.fst he).symm

end Json

theorem Document.ofJson_eq_ok_iff {v : Json} {doc : Document} :
    Document.ofJson v = .ok doc ↔
      ∃ r, v.record? Spec.fields = some r ∧ doc = ⟨v, Spec.ofRecord r⟩ := by
  rw [Document.ofJson, Spec.ofJson]
  cases v.record? Spec.fields with
  | none => exact ⟨nofun, nofun⟩
  | some r =>
      constructor
      · intro h
        cases h
        exact ⟨r, rfl, rfl⟩
      · rintro ⟨_, hr, rfl⟩
        cases hr
        rfl

/-- The API of a tree is that of its tree of version 3, read as a document. -/
theorem Api.ofJson_of_document {v tree : Json} {doc : Document} (htree : toOpenApi3 v = .ok tree)
    (hdoc : Document.ofJson tree = .ok doc) : Api.ofJson v = .ok doc.api := by
  rw [Api.ofJson, htree]
  show (Document.ofJson tree).bind _ = _
  rw [hdoc]
  rfl

/-- An object is read as a document, whatever its members are. -/
theorem Api.ofJson_of_object {v : Json} {ms : List (String × Json)}
    (htree : toOpenApi3 v = .ok (.object ms)) :
    Api.ofJson v = .ok (Document.api ⟨.object ms, Spec.ofRecord ms⟩) :=
  ofJson_of_document htree (Document.ofJson_eq_ok_iff.2 ⟨ms, rfl, rfl⟩)

/-- The API of a tree is that of some document. -/
theorem Api.exists_document {v : Json} {api : Api} (h : Api.ofJson v = .ok api) :
    ∃ doc : Document, api = doc.api := by
  rw [Api.ofJson] at h
  cases htree : toOpenApi3 v with
  | error failure =>
      rw [htree] at h
      cases h
  | ok tree =>
      cases hdoc : Document.ofJson tree with
      | error failure =>
          simp only [htree, hdoc, bind, Except.bind] at h
          cases h
      | ok doc =>
          simp only [htree, hdoc, bind, Except.bind] at h
          cases h
          exact ⟨doc, rfl⟩

/-! ## Slots -/

theorem Schema.eq_of_slot? {v : Json} {s : Schema} (h : slot? v = some s) : s = ofJson v := by
  cases v with
  | null => cases h
  | bool _ | number _ | string _ | list _ | object _ =>
      cases h
      rfl

/-- A schema slot is read from a tree that stands in the record. -/
theorem Schema.exists_of_slot {v : Json} {fields : List String} {r : Ordered String Json}
    {name : String} {s : Schema} (hr : v.record? fields = some r)
    (hs : Json.field? r name slot? = some s) : ∃ w, w.StandsIn v ∧ s = ofJson w := by
  obtain ⟨w, hw, hread⟩ := Json.exists_of_field? hr hs
  exact ⟨w, hw, eq_of_slot? hread⟩

/-- The schemas of some content stand in a tree. -/
def Content.ReadFrom (c : Content) (v : Json) : Prop :=
  ∀ key s, (key, some s) ∈ c → ∃ w, w.StandsIn v ∧ s = Schema.ofJson w

theorem Content.readFrom_table {v : Json} {fields : List String} {r : Ordered String Json}
    {name : String} (hr : v.record? fields = some r) :
    Content.ReadFrom (Json.table r name readMediaType?) v := by
  intro key s hs
  obtain ⟨media, hmedia, hread⟩ := Json.standsIn_of_mem_table hr hs
  obtain ⟨r', hr', he⟩ := Option.bind_eq_some_iff.1 hread
  obtain ⟨w, hw, rfl⟩ := Schema.exists_of_slot hr' (Option.some.inj he)
  exact ⟨w, hw.trans hmedia, rfl⟩

theorem Content.readFrom_requestBody {v : Json} {c : Content} (h : readRequestBody? v = some c) :
    c.ReadFrom v := by
  obtain ⟨r, hr, he⟩ := Option.bind_eq_some_iff.1 h
  cases he
  exact readFrom_table hr

theorem Content.readFrom_response {v : Json} {c : Content} (h : readResponse? v = some c) :
    c.ReadFrom v := by
  obtain ⟨r, hr, he⟩ := Option.bind_eq_some_iff.1 h
  cases he
  exact readFrom_table hr

/-! ## Operations -/

/-- The schema of the JSON content that stands in a place itself. -/
def contentSchema? (content : Option (RefOr Content)) : Option Schema :=
  content.bind RefOr.item? |>.bind Content.jsonSchema?

theorem contentNode_eq (doc : Document) (content : Option (RefOr Content)) :
    contentNode doc content = (contentSchema? content).map (nodeIn doc) := rfl

theorem exists_of_contentSchema? {v : Json} {read : Json → Option Content} {place : RefOr Content}
    (hread : ∀ {w c}, read w = some c → c.ReadFrom w) (hplace : RefOr.ofJson? read v = some place)
    {s : Schema} (hs : contentSchema? (some place) = some s) :
    ∃ w, w.StandsIn v ∧ s = Schema.ofJson w := by
  obtain ⟨c, hc, hjson⟩ := Option.bind_eq_some_iff.1 hs
  have hplace' : place = .item c := by
    cases place with
    | ref target => cases hc
    | item c' =>
        cases hc
        rfl
  subst hplace'
  rw [RefOr.ofJson?] at hplace
  split at hplace
  · cases hplace
  · obtain ⟨c', hc', he⟩ := Option.map_eq_some_iff.1 hplace
    cases he
    obtain ⟨slot, hslot, he⟩ := Option.bind_eq_some_iff.1 hjson
    cases he
    exact hread hc' "application/json" s (Ordered.mem_of_get? hslot)

namespace Operation

variable {v : Json} {op : Operation}

/-- The schema of a body stands in the tree at `requestBody`. -/
theorem exists_of_body (h : Operation.ofJson? v = some op) {s : Schema}
    (hs : contentSchema? op.requestBody = some s) :
    ∃ r y w, v.record? fields = some r ∧ Ordered.get? r "requestBody" = some y ∧ w.StandsIn y ∧
      s = Schema.ofJson w := by
  obtain ⟨r, hr, he⟩ := Option.bind_eq_some_iff.1 h
  cases he
  have hs : contentSchema? (Json.field? r "requestBody" (RefOr.ofJson? readRequestBody?)) =
      some s := hs
  cases hbody : Json.field? r "requestBody" (RefOr.ofJson? readRequestBody?) with
  | none =>
      rw [hbody] at hs
      cases hs
  | some place =>
      rw [hbody] at hs
      obtain ⟨y, hy, hplace⟩ := Option.bind_eq_some_iff.1 hbody
      obtain ⟨w, hw, rfl⟩ := exists_of_contentSchema? Content.readFrom_requestBody hplace hs
      exact ⟨r, y, w, hr, hy, hw, rfl⟩

/-- The schema of a response stands in an entry of the table at `responses`. -/
theorem exists_of_response (h : Operation.ofJson? v = some op) {status : String} {s : Schema}
    (hs : contentSchema? (Ordered.get? op.responses status) = some s) :
    ∃ r table y w, v.record? fields = some r ∧ Ordered.get? r "responses" = some (.object table) ∧
      (status, y) ∈ table ∧ w.StandsIn y ∧ s = Schema.ofJson w := by
  obtain ⟨r, hr, he⟩ := Option.bind_eq_some_iff.1 h
  cases he
  let responses := Json.table r "responses" (RefOr.ofJson? readResponse?)
  have hs : contentSchema? (Ordered.get? responses status) = some s := hs
  cases hresponse : Ordered.get? responses status with
  | none =>
      rw [hresponse] at hs
      cases hs
  | some place =>
      rw [hresponse] at hs
      obtain ⟨table, y, htable, hy, hplace⟩ :=
        Json.exists_of_mem_table (Ordered.mem_of_get? hresponse)
      obtain ⟨w, hw, rfl⟩ := exists_of_contentSchema? Content.readFrom_response hplace hs
      exact ⟨r, table, y, w, hr, htable, hy, hw, rfl⟩

/-- The schemas of an operation's body and of its responses stand in the operation. -/
theorem standsIn_of_contentSchema? (h : Operation.ofJson? v = some op) {s : Schema}
    (hs : contentSchema? op.requestBody = some s ∨
      ∃ status, contentSchema? (Ordered.get? op.responses status) = some s) :
    ∃ w, w.StandsIn v ∧ s = Schema.ofJson w := by
  rcases hs with hs | ⟨status, hs⟩
  · obtain ⟨r, y, w, hr, hy, hw, rfl⟩ := exists_of_body h hs
    exact ⟨w, hw.trans (Json.standsIn_of_record? hr hy), rfl⟩
  · obtain ⟨r, table, y, w, hr, htable, hy, hw, rfl⟩ := exists_of_response h hs
    exact ⟨w, hw.trans (.trans (.member hy .whole) (Json.standsIn_of_record? hr htable)), rfl⟩

/-- An operation's own parameters are the items of the list at `parameters`. -/
theorem exists_of_mem_parameters (h : Operation.ofJson? v = some op) {p : Json}
    (hp : p ∈ op.parameters) :
    ∃ r ps, v.record? fields = some r ∧ Ordered.get? r "parameters" = some (.list ps) ∧ p ∈ ps := by
  obtain ⟨r, hr, he⟩ := Option.bind_eq_some_iff.1 h
  cases he
  have hp : p ∈ (Json.field? r "parameters" Json.list?).getD [] := hp
  cases hlist : Json.field? r "parameters" Json.list? with
  | none =>
      rw [hlist] at hp
      exact absurd hp List.not_mem_nil
  | some ps =>
      rw [hlist] at hp
      obtain ⟨y, hy, hread⟩ := Option.bind_eq_some_iff.1 hlist
      cases y with
      | list xs =>
          cases hread
          exact ⟨r, _, hr, hy, hp⟩
      | null | bool _ | number _ | string _ | object _ => cases hread

theorem standsIn_of_mem_parameters (h : Operation.ofJson? v = some op) {p : Json}
    (hp : p ∈ op.parameters) : p.StandsIn v := by
  obtain ⟨r, ps, hr, hps, hp⟩ := exists_of_mem_parameters h hp
  exact .trans (.item hp .whole) (Json.standsIn_of_record? hr hps)

end Operation

/-! ## Parameters -/

/-- A parameter that takes effect is read from one of those that are declared. -/
theorem exists_of_mem_effectiveParameters {shared own : List Json} {p : Parameter}
    (h : p ∈ effectiveParameters shared own) : ∃ v ∈ shared ++ own, readParameter? v = some p := by
  rcases mem_foldl_placeParameter h with hp | hp
  · exact absurd hp List.not_mem_nil
  · exact List.mem_filterMap.1 hp

/-- The schema of a parameter stands in it. -/
theorem Parameter.exists_of_schema {v : Json} {p : Parameter} (h : readParameter? v = some p)
    {s : Schema} (hs : p.schema = some s) : ∃ w, w.StandsIn v ∧ s = Schema.ofJson w := by
  rw [readParameter?] at h
  split at h
  · cases h
  · obtain ⟨r, hr, h⟩ := Option.bind_eq_some_iff.1 h
    obtain ⟨name, -, h⟩ := Option.bind_eq_some_iff.1 h
    obtain ⟨location, -, h⟩ := Option.bind_eq_some_iff.1 h
    cases h
    exact Schema.exists_of_slot hr hs

/-! ## Path items and components -/

/-- What a path item holds stands in it. -/
theorem PathItem.standsIn {v : Json} {item : PathItem} (h : PathItem.ofJson? v = some item) :
    (∀ key u, (key, u) ∈ item.entries → u.StandsIn v) ∧ ∀ p ∈ item.parameters, p.StandsIn v := by
  cases v with
  | object ms =>
      cases h
      constructor
      · intro key u hu
        exact .member (List.mem_filter.1 hu).1 .whole
      · intro p hp
        cases hlist : Json.field? ms "parameters" Json.list? with
        | none => simp [hlist] at hp
        | some ps =>
            obtain ⟨w, hw, hread⟩ := Option.bind_eq_some_iff.1 hlist
            cases w with
            | list xs =>
                cases hread
                have hp : p ∈ ps := by simpa [hlist] using hp
                exact .member (Ordered.mem_of_get? hw) (.item hp .whole)
            | null | bool _ | number _ | string _ | object _ => cases hread
  | null | bool _ | number _ | string _ | list _ => cases h

/-- The component schemas of a document stand in its tree. -/
theorem Spec.exists_of_mem_componentSchemas {v : Json} {r : Ordered String Json}
    (hr : v.record? fields = some r) {name : String} {s : Schema}
    (hs : (name, s) ∈ (ofRecord r).componentSchemas) :
    ∃ w, w.StandsIn v ∧ s = Schema.ofJson w := by
  have hblock : (ofRecord r).componentSchemas =
      (Json.field? r "components" readComponents?).getD [] := rfl
  rw [hblock] at hs
  cases hread : Json.field? r "components" readComponents? with
  | none =>
      rw [hread] at hs
      exact absurd hs List.not_mem_nil
  | some named =>
      rw [hread] at hs
      obtain ⟨block, hin, hcomponents⟩ := Json.exists_of_field? hr hread
      obtain ⟨r', hr', he⟩ := Option.bind_eq_some_iff.1 hcomponents
      cases he
      cases hfield : Json.field? r' "schemas" Schema.namedSchemas? with
      | none =>
          rw [hfield] at hs
          exact absurd hs List.not_mem_nil
      | some schemas =>
          rw [hfield] at hs
          obtain ⟨table, htable, hnamed⟩ := Json.exists_of_field? hr' hfield
          cases table with
          | object ms =>
              cases hnamed
              rw [Option.getD_some, Option.getD_some, Schema.ofNamed_eq_map] at hs
              obtain ⟨⟨_, w⟩, hw, he⟩ := List.mem_map.1 hs
              cases he
              exact ⟨w, .trans (.member hw .whole) (htable.trans hin), rfl⟩
          | null | bool _ | number _ | string _ | list _ => cases hnamed

/-! ## Endpoints -/

theorem parametersAt_congr {doc doc' : Document} {shared own : List Json}
    (hnode : ∀ v ∈ shared ++ own, ∀ w, w.StandsIn v →
      nodeIn doc (Schema.ofJson w) = nodeIn doc' (Schema.ofJson w)) (location : String) :
    parametersAt doc location (effectiveParameters shared own) =
      parametersAt doc' location (effectiveParameters shared own) := by
  refine List.map_congr_left fun p hp => ?_
  obtain ⟨v, hv, hread⟩ := exists_of_mem_effectiveParameters (List.mem_filter.1 hp).1
  rw [namedNodeIn, namedNodeIn]
  cases hs : p.schema with
  | none => rfl
  | some s =>
      obtain ⟨w, hw, rfl⟩ := Parameter.exists_of_schema hread hs
      rw [Option.map_some, Option.map_some, hnode v hv w hw]

/-- An endpoint depends on the document through the nodes of the trees in its operation and in the
parameters that it shares. -/
theorem endpointOf_congr {doc doc' : Document} {shared : List Json} {v : Json} {op : Operation}
    (hop : Operation.ofJson? v = some op)
    (hnode : ∀ u ∈ v :: shared, ∀ w, w.StandsIn u →
      nodeIn doc (Schema.ofJson w) = nodeIn doc' (Schema.ofJson w)) (verb : Verb) :
    endpointOf doc verb shared op = endpointOf doc' verb shared op := by
  have hcontent : ∀ content,
      (∀ s, contentSchema? content = some s → ∃ w, w.StandsIn v ∧ s = Schema.ofJson w) →
        contentNode doc content = contentNode doc' content := by
    intro content hsource
    rw [contentNode_eq, contentNode_eq]
    cases hs : contentSchema? content with
    | none => rfl
    | some s =>
        obtain ⟨w, hw, rfl⟩ := hsource s hs
        rw [Option.map_some, Option.map_some, hnode v List.mem_cons_self w hw]
  have hparameters : ∀ u ∈ shared ++ op.parameters, ∀ w, w.StandsIn u →
      nodeIn doc (Schema.ofJson w) = nodeIn doc' (Schema.ofJson w) := by
    intro u hu w hw
    rcases List.mem_append.1 hu with hu | hu
    · exact hnode u (List.mem_cons_of_mem v hu) w hw
    · exact hnode v List.mem_cons_self w (hw.trans (Operation.standsIn_of_mem_parameters hop hu))
  rw [endpointOf, endpointOf, parametersAt_congr hparameters, parametersAt_congr hparameters,
    hcontent _ fun s hs => Operation.standsIn_of_contentSchema? hop (.inl hs),
    hcontent _ fun s hs => Operation.standsIn_of_contentSchema? hop (.inr ⟨"200", hs⟩)]

/-- So do the endpoints of a path item. -/
theorem endpointsOf_congr {doc doc' : Document} {item : PathItem}
    (hnode : ∀ u, ((∃ key, (key, u) ∈ item.entries) ∨ u ∈ item.parameters) → ∀ w, w.StandsIn u →
      nodeIn doc (Schema.ofJson w) = nodeIn doc' (Schema.ofJson w)) :
    endpointsOf doc item = endpointsOf doc' item := by
  refine congrArg Ordered.ofWrites (List.filterMap_congr ?_)
  rintro ⟨key, v⟩ hentry
  rw [endpointAt?, endpointAt?]
  refine Option.bind_congr fun verb _ => Option.bind_congr fun op hop => ?_
  have hsame : endpointOf doc verb item.parameters op =
      endpointOf doc' verb item.parameters op := by
    refine endpointOf_congr hop (fun u hu => hnode u ?_) verb
    rcases List.mem_cons.1 hu with rfl | hu
    · exact .inl ⟨key, hentry⟩
    · exact .inr hu
  exact congrArg (fun e => some (verb, e)) hsame

/-! ## Verbs -/

/-- An operation is read from every record. -/
theorem isSome_operation (v : Json) :
    (Operation.ofJson? v).isSome = (v.record? Operation.fields).isSome := by
  rw [Operation.ofJson?]
  cases v.record? Operation.fields <;> rfl

/-- Every endpoint of a path item is that of an operation, under its verb. -/
theorem exists_of_mem_endpointsOf {doc : Document} {item : PathItem} {verb : Verb} {e : Endpoint}
    (h : (verb, e) ∈ endpointsOf doc item) :
    ∃ key v op, (key, v) ∈ item.entries ∧ Verb.ofKey? key = some verb ∧
      Operation.ofJson? v = some op ∧ e = endpointOf doc verb item.parameters op := by
  obtain ⟨⟨key, v⟩, hv, h⟩ := List.mem_filterMap.1 (Ordered.mem_of_mem_ofWrites h)
  obtain ⟨_, hverb, h⟩ := Option.bind_eq_some_iff.1 h
  obtain ⟨op, hop, h⟩ := Option.bind_eq_some_iff.1 h
  cases h
  exact ⟨key, v, op, hv, hverb, hop, rfl⟩

/-- Every route of an API has the endpoints of a path item. -/
theorem exists_of_mem_routes {doc : Document} {route : String × Endpoints}
    (h : route ∈ doc.api.routes) : ∃ path item, (path, item) ∈ doc.spec.paths ∧
      route = (normalizePath path, endpointsOf doc item) := by
  obtain ⟨⟨path, item⟩, hitem, rfl⟩ := List.mem_map.1 (Ordered.mem_of_mem_ofWrites h)
  exact ⟨path, item, hitem, rfl⟩

/-- The verb of an entry of a path item, when the entry is an operation. -/
def verbAt? (e : String × Json) : Option Verb :=
  if (Operation.ofJson? e.2).isSome then Verb.ofKey? e.1 else none

/-- The verbs of a path, each where it stands first. -/
theorem keys_endpointsOf (doc : Document) (item : PathItem) :
    keys (endpointsOf doc item) = (item.entries.filterMap verbAt?).eraseDups := by
  rw [endpointsOf, Ordered.keys_ofWrites, List.map_filterMap]
  refine congrArg _ (List.filterMap_congr fun e _ => ?_)
  rw [endpointAt?, verbAt?]
  cases Operation.ofJson? e.2 with
  | none => cases Verb.ofKey? e.1 <;> rfl
  | some op => cases Verb.ofKey? e.1 <;> rfl

end EndpointBindings
