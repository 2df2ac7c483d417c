import EndpointBindings.Proofs.Dialects.Items
import EndpointBindings.Proofs.Dialects.Operations

/-!
# Paths in both dialects

Conversion puts what the operations of a path share first.  Taking it out moves the last operation
into its place, so that the operations behind it come out with the last one first
(`PathOutline.order`).  That is the only difference between the two trees of a path that an API
shows, and there is none when nothing is shared or at most one operation stands behind
(`PathOutline.KeepsOrder`).
-/

namespace EndpointBindings

open Ordered (keys get? mapValues lastFirst)
open Swagger (modernize convertParameter convertPathItem convertPathItem_object convertEntry
  sharedMember requestBodyOf)

namespace PathOutline

/-! ## The order of operations -/

/-- The operations in the order in which conversion leaves them. -/
def order (p : PathOutline) : List (Verb × OperationOutline) :=
  match swaggerParameters p.parameters p.body with
  | [] => p.operations
  | _ => p.operations.take p.place ++ lastFirst (p.operations.drop p.place)

/-- Nothing is shared, or at most one operation stands behind what is. -/
def KeepsOrder (p : PathOutline) : Prop :=
  swaggerParameters p.parameters p.body = [] ∨ p.operations.length ≤ p.place + 1

theorem order_perm (p : PathOutline) : p.order.Perm p.operations := by
  rw [order]
  split
  · exact .refl _
  · exact ((Ordered.lastFirst_perm _).append_left _).trans (.of_eq (List.take_append_drop ..))

theorem order_eq {p : PathOutline} (h : p.KeepsOrder) : p.order = p.operations := by
  rw [order]
  split
  · rfl
  · next hshared =>
      have hbehind : (p.operations.drop p.place).length ≤ 1 := by
        rw [List.length_drop]
        have := h.resolve_left hshared
        omega
      rw [Ordered.lastFirst_of_length_le_one hbehind, List.take_append_drop]

/-! ## Conversion -/

theorem key_mem_keys (verb : Verb) : verb.key ∈ Verb.keys := by
  cases verb <;> simp [Verb.key, Verb.keys]

theorem key_ne (verb : Verb) :
    verb.key ≠ "parameters" ∧ verb.key ≠ "x-nullable" ∧ verb.key ≠ "$ref" := by
  cases verb <;> simp [Verb.key]

theorem convertPathItem_of_not_mem {ms : List (String × Json)} (h : "parameters" ∉ keys ms) :
    convertPathItem (.object ms) = .object (ms.map (convertEntry none)) := by
  simp only [convertPathItem_object, sharedMember, Swagger.sharedBody,
    Ordered.get?_eq_none_iff.2 h, Ordered.swapErase_of_not_mem h]
  rfl

theorem convertPathItem_of_shared {es : List (String × Json)} (h : "parameters" ∉ keys es)
    (xs : List Json) (fs : List (String × Json)) :
    convertPathItem (.object (es ++ ("parameters", .list xs) :: fs)) =
      .object (("parameters", .list (Swagger.splitItems xs).1) ::
        (es ++ lastFirst fs).map (convertEntry (Swagger.splitItems xs).2)) := by
  have hget : get? (es ++ ("parameters", .list xs) :: fs) "parameters" = some (.list xs) := by
    rw [Ordered.get?_append, Ordered.get?_eq_none_iff.2 h]
    rfl
  simp only [convertPathItem_object, sharedMember, Swagger.sharedBody, hget,
    Ordered.swapErase_append_cons h]
  rfl

/-- What a path shares as the body of each of its operations. -/
def sharedBody (p : PathOutline) : Option Json :=
  p.body.map fun b => requestBodyOf (bodyParameter b)

theorem not_mem_keys_underKeys {key : String} (h : ∀ verb : Verb, verb.key ≠ key)
    (write : OperationOutline → Json) (ops : List (Verb × OperationOutline)) :
    key ∉ keys (underKeys write ops) := by
  intro hmem
  obtain ⟨e, he, hkey⟩ := List.mem_map.1 hmem
  obtain ⟨op, -, rfl⟩ := List.mem_map.1 he
  exact h op.1 hkey

theorem map_convertEntry (p : PathOutline) (ops : List (Verb × OperationOutline)) :
    (underKeys (·.toJson .swagger2 p.body) ops).map (convertEntry p.sharedBody) =
      underKeys (·.converted p.body) ops := by
  rw [underKeys, List.map_map]
  refine List.map_congr_left fun e _ => ?_
  show convertEntry p.sharedBody (e.1.key, _) = _
  rw [convertEntry, if_pos (by simpa using key_mem_keys e.1)]
  rfl

theorem convertPathItem_toJson (p : PathOutline) :
    convertPathItem (p.toJson .swagger2) = .object (
      (if swaggerParameters p.parameters p.body = [] then []
        else [("parameters", .list ((p.parameters.filter (·.location.1 ≠ "formData")).map fun q =>
          convertParameter (q.toJson .swagger2)))]) ++
      underKeys (·.converted p.body) p.order) := by
  have hkeys (ops : List (Verb × OperationOutline)) :
      "parameters" ∉ keys (underKeys (·.toJson .swagger2 p.body) ops) :=
    not_mem_keys_underKeys (fun verb => (key_ne verb).1) _ ops
  cases hshared : swaggerParameters p.parameters p.body with
  | nil =>
      have htree : p.toJson .swagger2 =
          .object (underKeys (·.toJson .swagger2 p.body) p.operations) := by
        simp only [toJson, swaggerShared, hshared, List.append_nil, underKeys, ← List.map_append,
          List.take_append_drop]
      have hbody : p.sharedBody = none := by
        rw [sharedBody]
        cases hbody : p.body with
        | none => rfl
        | some b => simp [swaggerParameters, hbody] at hshared
      have horder : p.order = p.operations := order_eq (.inl hshared)
      rw [htree, convertPathItem_of_not_mem (hkeys _), ← hbody, map_convertEntry, horder]
      rfl
  | cons x xs =>
      have htree : p.toJson .swagger2 =
          .object (underKeys (·.toJson .swagger2 p.body) (p.operations.take p.place) ++
            ("parameters", .list (x :: xs)) ::
              underKeys (·.toJson .swagger2 p.body) (p.operations.drop p.place)) := by
        simp only [toJson, swaggerShared, hshared, List.append_assoc, List.singleton_append]
      have horder : p.order =
          p.operations.take p.place ++ lastFirst (p.operations.drop p.place) := by
        rw [order, hshared]
      rw [htree, convertPathItem_of_shared (hkeys _), ← hshared, splitItems_swaggerParameters,
        underKeys, underKeys, Ordered.lastFirst_map, ← List.map_append, ← horder,
        if_neg (by simp [hshared])]
      exact congrArg Json.object (congrArg (List.cons _) (map_convertEntry p p.order))

/-! ## Path items -/

/-- What a path is read as in either dialect. -/
def item (v : Version) (p : PathOutline) : PathItem :=
  match v with
  | .swagger2 =>
    { parameters := convertedParameters p.parameters
      entries := underKeys (fun o => modernize (o.converted p.body)) p.order }
  | .openApi3 =>
    { parameters := p.parameters.map (·.toJson .openApi3)
      entries := underKeys (·.toJson .openApi3 p.body) p.operations }

theorem filter_underKeys (write : OperationOutline → Json) (ops : List (Verb × OperationOutline)) :
    (underKeys write ops).filter (·.1 ≠ "parameters") = underKeys write ops := by
  refine List.filter_eq_self.2 fun e he => ?_
  obtain ⟨op, -, rfl⟩ := List.mem_map.1 he
  simpa using (key_ne op.1).1

theorem ofJson?_of_shared (xs : List Json) (write : OperationOutline → Json)
    (ops : List (Verb × OperationOutline)) :
    PathItem.ofJson? (.object (("parameters", .list xs) :: underKeys write ops)) =
      some { parameters := xs, entries := underKeys write ops } := by
  have hentries : (("parameters", Json.list xs) :: underKeys write ops).filter
      (·.1 ≠ "parameters") = underKeys write ops := by
    rw [List.filter_cons, if_neg (by simp), filter_underKeys]
  simp only [PathItem.ofJson?, Json.members?, Json.field?, Option.bind_eq_bind, Option.bind_some,
    hentries]
  rfl

theorem ofJson?_of_underKeys (write : OperationOutline → Json)
    (ops : List (Verb × OperationOutline)) :
    PathItem.ofJson? (.object (underKeys write ops)) =
      some { parameters := [], entries := underKeys write ops } := by
  have hget : get? (underKeys write ops) "parameters" = none :=
    Ordered.get?_eq_none_iff.2 (not_mem_keys_underKeys (fun verb => (key_ne verb).1) write ops)
  simp only [PathItem.ofJson?, Json.members?, Json.field?, Option.bind_eq_bind, Option.bind_some,
    hget, filter_underKeys]
  rfl

theorem ofJson?_openApi3 (p : PathOutline) :
    PathItem.ofJson? (p.toJson .openApi3) = some (p.item .openApi3) :=
  ofJson?_of_shared _ _ _

theorem mapValues_underKeys (write : OperationOutline → Json)
    (ops : List (Verb × OperationOutline)) :
    mapValues modernize (underKeys write ops) = underKeys (fun o => modernize (write o)) ops := by
  rw [mapValues, underKeys, List.map_map]
  rfl

theorem ofJson?_swagger2 (p : PathOutline) :
    PathItem.ofJson? (modernize (convertPathItem (p.toJson .swagger2))) =
      some (p.item .swagger2) := by
  have hnull : "x-nullable" ∉ keys (underKeys (·.converted p.body) p.order) :=
    not_mem_keys_underKeys (fun verb => (key_ne verb).2.1) _ _
  have href : "$ref" ∉ keys (underKeys (·.converted p.body) p.order) :=
    not_mem_keys_underKeys (fun verb => (key_ne verb).2.2) _ _
  rw [convertPathItem_toJson]
  split
  · next hshared =>
      have hparameters : p.parameters = [] := by
        cases hps : p.parameters with
        | nil => rfl
        | cons q ps => simp [swaggerParameters, hps] at hshared
      rw [List.nil_append, Swagger.modernize_of_not_mem hnull href, mapValues_underKeys,
        ofJson?_of_underKeys, item, hparameters]
      rfl
  · have hcons {key : String} (hne : key ≠ "parameters")
        (hkey : key ∉ keys (underKeys (·.converted p.body) p.order)) (v : Json) :
        key ∉ keys (("parameters", v) :: underKeys (·.converted p.body) p.order) := by
      intro hmem
      rcases List.mem_cons.1 hmem with h | h
      · exact hne h
      · exact hkey h
    have hnull' := hcons (by decide) hnull
    have href' := hcons (by decide) href
    rw [List.singleton_append, Swagger.modernize_of_not_mem (hnull' _) (href' _)]
    show PathItem.ofJson? (.object (("parameters", modernize (.list _)) ::
      mapValues modernize (underKeys _ _))) = _
    rw [mapValues_underKeys, modernize, Swagger.modernizeItems_eq, List.map_map, ofJson?_of_shared]
    rfl

/-! ## Endpoints of a path -/

/-- The endpoints that operations of a path give. -/
def endpoints (doc : Document) (p : PathOutline) (ops : List (Verb × OperationOutline)) :
    Endpoints :=
  ops.map fun e => (e.1, e.2.endpoint doc p e.1)

theorem endpoints_nodup {p : PathOutline} {ops : List (Verb × OperationOutline)}
    (h : ops.Perm p.operations) (doc : Document) : (keys (p.endpoints doc ops)).Nodup := by
  have hkeys : keys (p.endpoints doc ops) = ops.map (·.1) := by
    rw [keys, endpoints, List.map_map]
    rfl
  rw [hkeys]
  exact (h.map (·.1)).nodup_iff.2 p.distinct

theorem endpointsOf_openApi3 (doc : Document) (p : PathOutline) :
    endpointsOf doc (p.item .openApi3) = p.endpoints doc p.operations := by
  have hread : (p.item .openApi3).entries.filterMap
      (endpointAt? doc (p.item .openApi3).parameters) = p.endpoints doc p.operations := by
    show (underKeys _ p.operations).filterMap _ = _
    rw [underKeys, List.filterMap_map]
    exact filterMap_of_some (fun e => e.2.endpointAt?_openApi3 doc p e.1) _
  rw [endpointsOf, hread, Ordered.ofWrites_of_nodup (endpoints_nodup (.refl _) doc)]

theorem endpointsOf_swagger2 (doc : Document) (p : PathOutline) :
    endpointsOf doc (p.item .swagger2) = p.endpoints doc p.order := by
  have hread : (p.item .swagger2).entries.filterMap
      (endpointAt? doc (p.item .swagger2).parameters) = p.endpoints doc p.order := by
    show (underKeys (fun o => modernize (o.converted p.body)) p.order).filterMap _ = _
    rw [underKeys, List.filterMap_map]
    exact filterMap_of_some (fun e => e.2.endpointAt?_swagger2 doc p e.1) _
  rw [endpointsOf, hread, Ordered.ofWrites_of_nodup (endpoints_nodup p.order_perm doc)]

/-- **A path has the same endpoints in every document with the same schemas.** -/
theorem endpoints_congr {doc doc' : Document} {table : List (OutlineName × SchemaOutline)}
    (h : HasSchemas doc.raw table) (h' : HasSchemas doc'.raw table) (p : PathOutline)
    (ops : List (Verb × OperationOutline)) : p.endpoints doc ops = p.endpoints doc' ops :=
  List.map_congr_left fun e _ => congrArg (e.1, ·) (e.2.endpoint_congr h h' p e.1)

end PathOutline

end EndpointBindings
