import EndpointBindings.Proofs.Composition.Congruence
import EndpointBindings.Proofs.Dialects.Schemas
import EndpointBindings.Proofs.Json.Pointers

/-!
# References in both dialects

A composition sees of a document only where references lead (`Schema.compose_congr`).  A reference to
a schema leads to the schema of that name in the table of the document, whichever dialect the table
was written in (`SchemaOutline.resolve?_reference`), so that the schemas of an outline have the same
nodes in both documents (`SchemaOutline.nodeIn_congr`).
-/

namespace EndpointBindings

open Ordered (get?)

/-! ## Where a reference leads -/

/-- The segments of a reference to a schema end with the schema's name as it is. -/
theorem segments?_reference (name : String) :
    Json.segments? (Version.openApi3.reference name) = some ["components", "schemas", name] := by
  have hdrop : Text.dropPrefix? "#/" (Version.openApi3.reference name) =
      some (String.ofList ("components".toList ++ '/' :: ("schemas".toList ++
        '/' :: Json.escape name.toList))) := by
    have hlist : (Version.openApi3.reference name).toList = "#/".toList ++
        ("components".toList ++ '/' :: ("schemas".toList ++ '/' :: Json.escape name.toList)) := by
      simp [Version.reference, Version.schemaSection]
    rw [Text.dropPrefix?, hlist, Text.afterPrefix?_append, Option.map_some]
  rw [Json.segments?, hdrop, Option.map_some, Text.split, String.toList_ofList,
    Text.pieces_append_cons (by simp), Text.pieces_append_cons (by simp),
    Text.pieces_of_not_mem (not_mem_escape _)]
  simp [Json.unescape_escape, Json.unescape]

/-! ## The schemas of an outline -/

namespace SchemaOutline

/-- What an outline is read as. -/
def schema (o : SchemaOutline) : Schema := Schema.ofJson (o.toJson .openApi3)

/-- What an outline is composed of. -/
def allOf? : SchemaOutline → Option (List SchemaOutline)
  | ⟨_, _, _, _, _, _, allOf, _, _⟩ => allOf

/-- What an outline refers to. -/
def ref? : SchemaOutline → Option OutlineName
  | ⟨_, ref, _, _, _, _, _, _, _⟩ => ref

theorem get?_allOf (v : Version) (o : SchemaOutline) :
    get? (o.members v) "allOf" = listedOutlines v o.allOf? := by
  obtain ⟨value, ref, required, description, properties, items, allOf, oneOf, anyOf⟩ := o
  cases v <;>
    simp [get?_members, fields, ValueOutline.fields, Version.nullableKey, Ordered.get?_cons, allOf?]

theorem get?_ref (v : Version) (o : SchemaOutline) :
    get? (o.members v) "$ref" = o.ref?.map fun name => .string (v.reference name.1) := by
  obtain ⟨value, ref, required, description, properties, items, allOf, oneOf, anyOf⟩ := o
  cases v <;>
    simp [get?_members, fields, ValueOutline.fields, Version.nullableKey, Ordered.get?_cons, ref?]

theorem schema_members (o : SchemaOutline) :
    o.schema.members = (o.allOf?.getD []).map schema := by
  show (o.schema.allOf).getD [] = _
  rw [schema, toJson, Schema.ofJson, Schema.ofMembers_eq, get?_allOf]
  cases o.allOf? with
  | none => rfl
  | some os =>
      show Schema.ofItems (outlineItems .openApi3 os) = os.map schema
      rw [Schema.ofItems_eq_map, outlineItems_eq_map, List.map_map]
      rfl

theorem schema_ref (o : SchemaOutline) :
    o.schema.facets.ref = o.ref?.map fun name => Version.openApi3.reference name.1 := by
  rw [schema, toJson, Schema.ofJson, Schema.ofMembers_eq]
  show (get? (o.members .openApi3) "$ref").bind Json.string? = _
  rw [get?_ref]
  cases o.ref? <;> rfl

end SchemaOutline

/-! ## Documents with a table of schemas -/

theorem walk?_append (v : Json) (ss ts : List String) :
    v.walk? (ss ++ ts) = (v.walk? ss).bind (·.walk? ts) := by
  induction ss generalizing v with
  | nil => rfl
  | cons s ss ih =>
      rw [List.cons_append, Json.walk?, Json.walk?, Option.bind_assoc]
      exact congrArg _ (funext fun w => ih w)

/-- A document that has the schemas of a table where references to them lead. -/
def HasSchemas (root : Json) (ps : List (OutlineName × SchemaOutline)) : Prop :=
  ∃ table, root.walk? ["components", "schemas"] = some (.object table) ∧
    Ordered.mapValues Schema.ofJson table = ps.map fun p => (p.1.1, p.2.schema)

theorem HasSchemas.resolve?_reference {root : Json} {ps : List (OutlineName × SchemaOutline)}
    (h : HasSchemas root ps) (name : String) :
    Schema.resolve? root (Version.openApi3.reference name) =
      get? (ps.map fun p => (p.1.1, p.2.schema)) name := by
  obtain ⟨table, hwalk, htable⟩ := h
  have hfollow : root.follow? (Version.openApi3.reference name) = get? table name := by
    rw [Json.follow?, segments?_reference]
    show root.walk? (["components", "schemas"] ++ [name]) = _
    rw [walk?_append, hwalk]
    exact Option.bind_fun_some _
  rw [Schema.resolve?, hfollow, ← htable, Ordered.get?_mapValues]

theorem HasSchemas.callee?_eq {root root' : Json} {ps : List (OutlineName × SchemaOutline)}
    (h : HasSchemas root ps) (h' : HasSchemas root' ps) (o : SchemaOutline)
    (expanding : List String) :
    Schema.callee? root expanding o.schema = Schema.callee? root' expanding o.schema := by
  rw [Schema.callee?, Schema.callee?, o.schema_ref]
  cases o.ref? with
  | none => rfl
  | some name => simp only [Option.map_some, h.resolve?_reference, h'.resolve?_reference]

/-- A member of an outline leads to an outline again. -/
theorem HasSchemas.callee?_outline {root : Json} {ps : List (OutlineName × SchemaOutline)}
    (h : HasSchemas root ps) {o : SchemaOutline} {expanding : List String} {c : Schema.Call}
    (hc : Schema.callee? root expanding o.schema = some c) :
    ∃ o' : SchemaOutline, c.schema = o'.schema := by
  obtain ⟨-, rfl⟩ | ⟨reference, target, href, -, htarget, rfl⟩ := Schema.callee?_cases hc
  · exact ⟨o, rfl⟩
  · rw [o.schema_ref] at href
    obtain ⟨name, -, rfl⟩ := Option.map_eq_some_iff.1 href
    rw [h.resolve?_reference] at htarget
    obtain ⟨p, -, hp⟩ := List.mem_map.1 (Ordered.mem_of_get? htarget)
    exact ⟨p.2, (Prod.mk.inj hp).2.symm⟩

/-- **The schemas of an outline have the same node in every document with the same table.** -/
theorem SchemaOutline.nodeIn_congr {doc doc' : Document} {ps : List (OutlineName × SchemaOutline)}
    (h : HasSchemas doc.raw ps) (h' : HasSchemas doc'.raw ps) (o : SchemaOutline) :
    nodeIn doc o.schema = nodeIn doc' o.schema := by
  refine congrArg Schema.toNode (Schema.compose_congr
    (P := fun s => ∃ o : SchemaOutline, s = o.schema) ?_ ?_ ⟨o, rfl⟩)
  · rintro s ⟨o, rfl⟩ member hmem expanding
    rw [o.schema_members] at hmem
    obtain ⟨part, -, rfl⟩ := List.mem_map.1 hmem
    exact h.callee?_eq h' part expanding
  · rintro s ⟨o, rfl⟩ member hmem expanding c hc
    rw [o.schema_members] at hmem
    obtain ⟨part, -, rfl⟩ := List.mem_map.1 hmem
    exact h.callee?_outline hc

end EndpointBindings
