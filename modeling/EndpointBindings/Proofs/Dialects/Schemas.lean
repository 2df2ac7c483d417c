import EndpointBindings.Proofs.Dialects.Modernize
import EndpointBindings.Proofs.Dialects.Outline

/-!
# Schemas in both dialects

A schema outline is read as the same schema from either dialect, once the Swagger 2 tree has been
rewritten (`SchemaOutline.ofJson_modernized`).  The induction follows the outline.  At each object
the reader is its look-ups, the rewrite is what it does to a look-up, and what remains is that a
keyword's own value is read alike: plain values are left as they are, references change their
section, and the slots of further schemas are the hypotheses of the induction.
-/

namespace EndpointBindings

open Ordered (keys get?)
open Swagger (modernize modernizeItems modernizeMembers modernizeAt renameNullable modernizeRef)

/-! ## Members that may be absent -/

theorem keys_present_sublist (fields : List (String × Option Json)) :
    (keys (present fields)).Sublist (keys fields) := by
  induction fields with
  | nil => exact .slnil
  | cons e fields ih =>
      obtain ⟨key, v⟩ := e
      cases v with
      | none => exact ih.cons key
      | some v => exact ih.cons_cons key

theorem get?_present {fields : List (String × Option Json)} (hnodup : (keys fields).Nodup)
    (key : String) : get? (present fields) key = (get? fields key).join := by
  induction fields with
  | nil => rfl
  | cons e fields ih =>
      obtain ⟨key', v⟩ := e
      obtain ⟨hfresh, hrest⟩ := List.nodup_cons.1 hnodup
      rw [Ordered.get?_cons]
      cases v with
      | none =>
          show get? (present fields) key = _
          rw [ih hrest]
          split
          · next h =>
              have hnone : get? fields key = none := Ordered.get?_eq_none_iff.2 (h ▸ hfresh)
              rw [hnone]
              rfl
          · rfl
      | some v =>
          show get? ((key', v) :: present fields) key = _
          rw [Ordered.get?_cons, ih hrest]
          split <;> rfl

/-! ## References -/

theorem modernizeRef_reference (name : String) :
    modernizeRef (Version.swagger2.reference name) = Version.openApi3.reference name := by
  have hdrop : Text.dropPrefix? "#/definitions/" (Version.swagger2.reference name) =
      some (String.ofList (Json.escape name.toList)) := by
    rw [Text.dropPrefix?, Version.reference, Version.schemaSection, String.toList_append,
      Text.afterPrefix?_append, Option.map_some, String.toList_ofList]
  simp only [modernizeRef, Swagger.sections, List.findSome?_cons, hdrop, Option.map_some,
    Option.getD_some]
  rfl

/-! ## The keywords of an outline -/

namespace SchemaOutline

theorem keys_fields_nodup (v : Version) (o : SchemaOutline) : (keys (o.fields v)).Nodup := by
  cases o
  cases v <;> simp [fields, ValueOutline.fields, keys, Version.nullableKey]

theorem get?_members (v : Version) (o : SchemaOutline) (key : String) :
    get? (o.members v) key = (get? (o.fields v) key).join :=
  get?_present (o.keys_fields_nodup v) key

/-- What a key holds after the rewrite. -/
theorem get?_modernized (o : SchemaOutline) (key : String) :
    get? (renameNullable (modernizeMembers (o.members .swagger2))) key =
      if key = "nullable" then (get? (o.fields .swagger2) "x-nullable").join.map modernize
      else if key = "x-nullable" then none
      else (get? (o.fields .swagger2) key).join.map (modernizeAt key) := by
  have hnodup : (keys (modernizeMembers (o.members .swagger2))).Nodup := by
    rw [Swagger.keys_modernizeMembers]
    exact (keys_present_sublist _).nodup (o.keys_fields_nodup .swagger2)
  have hnullable : get? (o.members .swagger2) "nullable" = none := by
    cases o
    rw [get?_members]
    simp [fields, ValueOutline.fields, Version.nullableKey, Ordered.get?_cons]
  rw [Swagger.get?_renameNullable hnodup]
  simp only [Swagger.get?_modernizeMembers, hnullable, get?_members, Option.map_none,
    Option.or_none]
  split
  · congr 1
    exact funext (Swagger.modernizeAt_of_ne (by decide))
  · rfl

end SchemaOutline

/-! ## Plain values -/

theorem modernize_scalar (x : Scalar) : modernize x.toJson = x.toJson := by
  cases x <;> rfl

theorem modernizeItems_of_fixed {xs : List Json} (h : ∀ x ∈ xs, modernize x = x) :
    modernizeItems xs = xs := by
  rw [Swagger.modernizeItems_eq]
  exact (List.map_congr_left h).trans (List.map_id xs)

theorem modernize_ofStrings (names : List String) :
    modernize (.ofStrings names) = .ofStrings names := by
  refine congrArg Json.list (modernizeItems_of_fixed fun x hx => ?_)
  obtain ⟨name, -, rfl⟩ := List.mem_map.1 hx
  rfl

theorem modernize_scalars (xs : List Scalar) :
    modernize (.list (xs.map Scalar.toJson)) = .list (xs.map Scalar.toJson) := by
  refine congrArg Json.list (modernizeItems_of_fixed fun v hv => ?_)
  obtain ⟨x, -, rfl⟩ := List.mem_map.1 hv
  exact modernize_scalar x

theorem modernize_types (t : TypeNames) : modernize t.toJson = t.toJson := by
  cases t with
  | single name => rfl
  | several names => exact modernize_ofStrings names

/-- Values that the rewrite leaves alone stand as they are at every key but that of references. -/
theorem modernizeAt_comp {α : Type} {write : α → Json} {key : String} (hkey : key ≠ "$ref")
    (h : ∀ a, modernize (write a) = write a) : modernizeAt key ∘ write = write := by
  funext a
  exact (Swagger.modernizeAt_of_ne hkey (write a)).trans (h a)

theorem modernizeAt_reference :
    (modernizeAt "$ref" ∘ fun name => Json.string (Version.swagger2.reference name)) =
      fun name => Json.string (Version.openApi3.reference name) := by
  funext name
  exact congrArg Json.string (modernizeRef_reference name)

/-- The keywords that hold no schema are read alike. -/
theorem SchemaOutline.ofTable_modernized (o : SchemaOutline) :
    Facets.ofTable (renameNullable (modernizeMembers (o.members .swagger2))) =
      Facets.ofTable (o.members .openApi3) := by
  have hstring : ∀ text, modernize (.string text) = .string text := fun _ => rfl
  have hnumber : ∀ n, modernize (.number n) = .number n := fun _ => rfl
  have hnat : ∀ n, modernize (.ofNat n) = .ofNat n := fun _ => rfl
  have hbool : modernize ∘ Json.bool = Json.bool := rfl
  obtain ⟨value, ref, required, description, properties, items, allOf, oneOf, anyOf⟩ := o
  simp only [Facets.ofTable, get?_modernized, get?_members]
  simp [fields, ValueOutline.fields, Version.nullableKey, Ordered.get?_cons, modernizeAt_comp,
    modernizeAt_reference, modernize_types, modernize_ofStrings, modernize_scalars,
    modernize_scalar, hstring, hnumber, hnat, hbool]

/-! ## Tables of schemas -/

theorem outlineItems_eq_map (v : Version) (os : List SchemaOutline) :
    outlineItems v os = os.map (·.toJson v) := by
  induction os with
  | nil => rfl
  | cons o os ih =>
      rw [outlineItems, ih, List.map_cons, SchemaOutline.toJson, SchemaOutline.members]

theorem outlineMembers_eq_map (v : Version) (ps : List (OutlineName × SchemaOutline)) :
    outlineMembers v ps = ps.map fun p => (p.1.1, p.2.toJson v) := by
  induction ps with
  | nil => rfl
  | cons p ps ih =>
      rw [outlineMembers, ih, List.map_cons, SchemaOutline.toJson, SchemaOutline.members]

/-- No name of a table is the mark of null, so the rewrite goes through it value by value. -/
theorem modernize_outlineMembers (ps : List (OutlineName × SchemaOutline)) :
    modernize (.object (outlineMembers .swagger2 ps)) =
      .object (Ordered.mapValues modernize (outlineMembers .swagger2 ps)) := by
  rw [outlineMembers_eq_map]
  apply Swagger.modernize_table
  · intro hmem
    obtain ⟨e, he, hkey⟩ := List.mem_map.1 hmem
    obtain ⟨p, -, rfl⟩ := List.mem_map.1 he
    exact p.1.2 hkey
  · intro key v he
    obtain ⟨p, -, hp⟩ := List.mem_map.1 he
    cases hp
    rfl

/-! ## The slots of further schemas -/

mutual

/-- A schema is read alike. -/
theorem SchemaOutline.ofMembers_modernized : (o : SchemaOutline) →
    Schema.ofMembers (renameNullable (modernizeMembers (present (o.fields .swagger2)))) =
      Schema.ofMembers (present (o.fields .openApi3))
  | ⟨value, ref, required, description, properties, items, allOf, oneOf, anyOf⟩ => by
    have hfacets := SchemaOutline.ofTable_modernized
      ⟨value, ref, required, description, properties, items, allOf, oneOf, anyOf⟩
    have hproperties := namedSchemas?_modernized properties
    have hitems := slot?_modernized items
    have hallOf := listed?_modernized "allOf" allOf
    have honeOf := listed?_modernized "oneOf" oneOf
    have hanyOf := listed?_modernized "anyOf" anyOf
    rw [← SchemaOutline.members, ← SchemaOutline.members, Schema.ofMembers_eq, Schema.ofMembers_eq,
      hfacets]
    simp only [SchemaOutline.get?_modernized, SchemaOutline.get?_members]
    simp [SchemaOutline.fields, ValueOutline.fields, Version.nullableKey, Ordered.get?_cons,
      hproperties, hitems, hallOf, honeOf, hanyOf]

theorem slot?_modernized : (o : Option SchemaOutline) →
    ((optionalOutline .swagger2 o).map (modernizeAt "items")).bind Schema.slot? =
      (optionalOutline .openApi3 o).bind Schema.slot?
  | none => rfl
  | some o => congrArg some o.ofMembers_modernized

theorem listed?_modernized (key : String) : (os : Option (List SchemaOutline)) →
    ((listedOutlines .swagger2 os).map (modernizeAt key)).bind Schema.listed? =
      (listedOutlines .openApi3 os).bind Schema.listed?
  | none => rfl
  | some os => congrArg some (ofItems_modernized os)

theorem namedSchemas?_modernized : (ps : Option (List (OutlineName × SchemaOutline))) →
    ((namedOutlines .swagger2 ps).map (modernizeAt "properties")).bind Schema.namedSchemas? =
      (namedOutlines .openApi3 ps).bind Schema.namedSchemas?
  | none => rfl
  | some ps => by
    show Schema.namedSchemas? (modernize (.object (outlineMembers .swagger2 ps))) =
      some (Schema.ofNamed (outlineMembers .openApi3 ps))
    rw [modernize_outlineMembers]
    exact congrArg some (ofNamed_modernized ps)

theorem ofItems_modernized : (os : List SchemaOutline) →
    Schema.ofItems (modernizeItems (outlineItems .swagger2 os)) =
      Schema.ofItems (outlineItems .openApi3 os)
  | [] => rfl
  | o :: os => by
    show Schema.ofMembers _ :: Schema.ofItems _ = Schema.ofMembers _ :: Schema.ofItems _
    rw [o.ofMembers_modernized, ofItems_modernized os]

theorem ofNamed_modernized : (ps : List (OutlineName × SchemaOutline)) →
    Schema.ofNamed (Ordered.mapValues modernize (outlineMembers .swagger2 ps)) =
      Schema.ofNamed (outlineMembers .openApi3 ps)
  | [] => rfl
  | (name, o) :: ps => by
    show (name.1, Schema.ofMembers _) :: Schema.ofNamed (Ordered.mapValues modernize _) =
      (name.1, Schema.ofMembers _) :: Schema.ofNamed _
    rw [o.ofMembers_modernized, ofNamed_modernized ps]

end

/-- **A schema is read alike in both dialects.** -/
theorem SchemaOutline.ofJson_modernized (o : SchemaOutline) :
    Schema.ofJson (modernize (o.toJson .swagger2)) = Schema.ofJson (o.toJson .openApi3) :=
  o.ofMembers_modernized

end EndpointBindings
