import EndpointBindings.Proofs.Dialects.Slots

/-!
# Declarations keep their order

A list of parameters loses its bodies and form fields in the conversion, and the other parameters
get a schema of their own.  None of this changes which names are declared at another location, nor
their order: neither for the parameters that a path shares (`declared_shared`) nor for those of an
operation (`declared_operation`).
-/

namespace EndpointBindings

open Ordered (keys get?)
open Swagger (modernize modernizeAt modernizeMembers renameNullable convertParameter convertEntry
  sharedBody splitItems location? schemaFields droppedFields)

variable {location : String}

/-! ## One parameter -/

/-- Text is not rewritten. -/
theorem string?_modernize (v : Json) : (modernize v).string? = v.string? := by
  cases v <;> rfl

/-- A list is rewritten field by field. -/
theorem record?_modernizeItems (fields : List String) (xs : List Json) :
    Json.record? fields (.list (Swagger.modernizeItems xs)) =
      (Json.record? fields (.list xs)).map (Ordered.mapValues modernize) := by
  have hzip : fields.zip (xs.map modernize) = Ordered.mapValues modernize (fields.zip xs) :=
    List.zip_map_right ..
  rw [Swagger.modernizeItems_eq, Json.record?, Json.record?, List.length_map, hzip]
  split <;> rfl

/-- The name that the fields of a parameter declare. -/
def declaredBy? (location : String) (r : Ordered String Json) : Option String :=
  (Json.field? r "name" Json.string?).bind fun name =>
    (Json.field? r "in" Json.string?).bind fun l => if l = location then some name else none

/-- A record that is no reference declares what its fields say. -/
theorem declared?_eq (location : String) (v : Json) :
    declared? location v = if v.isReference then none else
      (v.record? ["name", "in", "description", "required", "schema"]).bind
        (declaredBy? location) := by
  rw [declared?, readParameter?]
  split
  · rfl
  · rw [Parameter.ofJson?]
    cases Json.record? ["name", "in", "description", "required", "schema"] v with
    | none => rfl
    | some r =>
        dsimp only [Option.bind_eq_bind, Option.bind_some]
        rw [declaredBy?]
        cases Json.field? r "name" Json.string? with
        | none => rfl
        | some name => cases Json.field? r "in" Json.string? <;> rfl

theorem declaredBy?_congr {r r' : Ordered String Json}
    (hname : Json.field? r "name" Json.string? = Json.field? r' "name" Json.string?)
    (hin : Json.field? r "in" Json.string? = Json.field? r' "in" Json.string?) :
    declaredBy? location r = declaredBy? location r' := by
  rw [declaredBy?, declaredBy?, hname, hin]

/-- Objects declare the same when these members say the same. -/
theorem declared?_congr {ms ns : List (String × Json)}
    (href : (get? ms "$ref").isSome = (get? ns "$ref").isSome)
    (hname : Json.field? ms "name" Json.string? = Json.field? ns "name" Json.string?)
    (hin : Json.field? ms "in" Json.string? = Json.field? ns "in" Json.string?) :
    declared? location (.object ms) = declared? location (.object ns) := by
  have href : (Json.object ms).isReference = (Json.object ns).isReference := href
  rw [declared?_eq, declared?_eq, href]
  split
  · rfl
  · exact declaredBy?_congr hname hin

theorem declared?_modernize {v : Json} (hv : v.WellFormed) :
    declared? location (modernize v) = declared? location v := by
  cases v with
  | object ms =>
      obtain ⟨hnodup, -⟩ := Json.wellFormed_object_iff.1 hv
      have hfield : ∀ key ∉ ["$ref", "x-nullable", "nullable"],
          Json.field? (renameNullable (modernizeMembers ms)) key Json.string? =
            Json.field? ms key Json.string? := by
        intro key hkey
        rw [Json.field?, get?_rewritten hnodup hkey, Option.bind_map]
        exact congrArg _ (funext string?_modernize)
      refine declared?_congr ?_ (hfield _ (by decide)) (hfield _ (by decide))
      rw [Swagger.get?_renameNullable (by rwa [Swagger.keys_modernizeMembers]),
        if_neg (by decide), if_neg (by decide), Swagger.get?_modernizeMembers, Option.isSome_map]
  | list xs =>
      have hfield : ∀ (r : Ordered String Json) key,
          Json.field? (Ordered.mapValues modernize r) key Json.string? =
            Json.field? r key Json.string? := by
        intro r key
        rw [Json.field?, Ordered.get?_mapValues, Option.bind_map]
        exact congrArg _ (funext string?_modernize)
      rw [declared?_eq, declared?_eq]
      show (Json.record? _ (.list (Swagger.modernizeItems xs))).bind _ = (Json.record? _ _).bind _
      rw [record?_modernizeItems, Option.bind_map]
      exact congrArg _ (funext fun r => declaredBy?_congr (hfield r _) (hfield r _))
  | null | bool _ | number _ | string _ => rfl

/-- What becomes of a parameter keeps the members that are no part of its schema. -/
theorem get?_convertParameter {ms : List (String × Json)} {key : String}
    (hkey : key ∉ "schema" :: schemaFields ++ droppedFields) :
    (convertParameter (.object ms)).get? key = get? ms key := by
  simp only [List.cons_append, List.mem_cons, List.mem_append, not_or] at hkey
  obtain ⟨hschema, hfields, hdropped⟩ := hkey
  rw [convertParameter]
  split
  · rfl
  · have hothers : get? (ms.filter fun e => !schemaFields.contains e.1 &&
        !droppedFields.contains e.1) key = get? ms key :=
      Ordered.get?_filter fun v => by simp [hfields, hdropped]
    dsimp only
    split
    · exact hothers
    · show get? (_ ++ _) key = _
      rw [Ordered.get?_append, Ordered.get?_cons, if_neg (Ne.symm hschema), Ordered.get?_nil,
        Option.or_none]
      exact hothers

theorem declared?_convertParameter (v : Json) :
    declared? location (convertParameter v) = declared? location v := by
  cases v with
  | object ms =>
      have hobject : ∃ ns, convertParameter (.object ms) = .object ns := by
        rw [convertParameter]
        split <;> exact ⟨_, rfl⟩
      obtain ⟨ns, hns⟩ := hobject
      have hget : ∀ key ∉ "schema" :: schemaFields ++ droppedFields, get? ns key = get? ms key := by
        intro key hkey
        exact (congrArg (Json.get? · key) hns).symm.trans (get?_convertParameter hkey)
      rw [hns]
      refine declared?_congr ?_ ?_ ?_
      · rw [hget _ (by decide)]
      · rw [Json.field?, Json.field?, hget _ (by decide)]
      · rw [Json.field?, Json.field?, hget _ (by decide)]
  | null | bool _ | number _ | string _ | list _ => rfl

/-- A parameter that stands elsewhere declares nothing here. -/
theorem declared?_of_location {v : Json} {l : String} (hl : location? v = some l)
    (hne : l ≠ location) : declared? location v = none := by
  cases v with
  | object ms =>
      have hin : Json.field? ms "in" Json.string? = some l := hl
      rw [declared?_eq]
      split
      · rfl
      · show declaredBy? location ms = none
        rw [declaredBy?, hin]
        cases Json.field? ms "name" Json.string? with
        | none => rfl
        | some name => exact if_neg hne
  | null | bool _ | number _ | string _ | list _ => cases hl

/-! ## Lists of parameters -/

section lists

variable (hbody : location ≠ "body") (hform : location ≠ "formData")

theorem filterMap_modernize {ps : List Json} (hps : ∀ p ∈ ps, p.WellFormed) :
    (ps.map modernize).filterMap (declared? location) = ps.filterMap (declared? location) := by
  rw [List.filterMap_map]
  exact List.filterMap_congr fun p hp => declared?_modernize (hps p hp)

include hbody hform

theorem filterMap_splitItems (ps : List Json) :
    (splitItems ps).1.filterMap (declared? location) = ps.filterMap (declared? location) := by
  rw [splitItems_eq, List.filterMap_map, List.filterMap_filter]
  refine List.filterMap_congr fun p _ => ?_
  by_cases hstays : staysParameter p = true
  · rw [if_pos hstays]
    exact declared?_convertParameter p
  · -- Neither a body nor a form field is declared at the location.
    rw [if_neg hstays]
    simp only [staysParameter, ne_eq, Bool.and_eq_true, decide_eq_true_eq, not_and_or,
      not_not] at hstays
    rcases hstays with h | h
    · exact (declared?_of_location h hbody.symm).symm
    · exact (declared?_of_location h hform.symm).symm

/-- **What a path declares for all its operations keeps its order.** -/
theorem declared_shared {ms : List (String × Json)} (hitem : (Json.object ms).WellFormed) :
    ((sharedParameters ms).map modernize).filterMap (declared? location) =
      ((Json.field? ms "parameters" Json.list?).getD []).filterMap (declared? location) := by
  rw [sharedParameters, Json.field?]
  cases hu : get? ms "parameters" with
  | none => rfl
  | some u =>
      have hin : u.StandsIn (.object ms) := .member (Ordered.mem_of_get? hu) .whole
      have hdrawn := (Drawn.splitParameters hitem hin).1
      rw [filterMap_modernize fun p hp => (hdrawn p hp).wellFormed hitem]
      exact filterMap_splitItems hbody hform _

end lists

/-! ## Operations -/

/-- The parameters of a rewritten operation. -/
theorem parameters_modernizeAt {key : String} {v : Json} {op op' : Operation}
    (hnodup : ∀ ms, v = .object ms → (keys ms).Nodup) (hop : Operation.ofJson? v = some op)
    (hop' : Operation.ofJson? (modernizeAt key v) = some op') :
    op'.parameters = op.parameters.map modernize := by
  obtain ⟨r, hr, he⟩ := Option.bind_eq_some_iff.1 hop
  cases he
  obtain ⟨r', hr', he⟩ := Option.bind_eq_some_iff.1 hop'
  cases he
  have hget : get? r' "parameters" = (get? r "parameters").map modernize := by
    cases v with
    | object ms =>
        cases hr
        cases hr'
        exact get?_rewritten (hnodup _ rfl) (by decide)
    | list xs =>
        have hread : Json.record? Operation.fields (.list (Swagger.modernizeItems xs)) = some r' :=
          hr'
        rw [record?_modernizeItems, hr] at hread
        cases hread
        exact Ordered.get?_mapValues ..
    | null | bool _ | number _ | string _ => cases hr
  exact listedParameters_map_modernize hget

namespace DrawnOperation

variable {item : List (String × Json)} {v : Json} (hitem : (Json.object item).WellFormed)

include hitem

theorem nodup_keys (h : DrawnOperation item v) {ms : List (String × Json)} (hv : v = .object ms) :
    (keys ms).Nodup := by
  cases h with
  | whole h =>
      subst hv
      exact (Json.wellFormed_object_iff.1 (h.wellFormed hitem)).1
  | fields hnodup _ _ _ =>
      cases hv
      exact hnodup

theorem wellFormed_parameters (h : DrawnOperation item v) {op : Operation}
    (hop : Operation.ofJson? v = some op) : ∀ p ∈ op.parameters, p.WellFormed := by
  intro p hp
  cases h with
  | whole h => exact (h.wellFormed hitem).of_standsIn (Operation.standsIn_of_mem_parameters hop hp)
  | fields _ hparameters _ _ =>
      obtain ⟨r, ps, hr, hps, hp⟩ := Operation.exists_of_mem_parameters hop hp
      cases hr
      exact ((hparameters _ hps).wellFormed hitem).of_standsIn (.item hp .whole)

end DrawnOperation

theorem Operation.parameters_object {ms : List (String × Json)} {op : Operation}
    (hop : Operation.ofJson? (.object ms) = some op) :
    op.parameters = (Json.field? ms "parameters" Json.list?).getD [] := by
  cases hop
  rfl

/-- The conversion of an operation, apart from the rewrite. -/
theorem declared_convertEntry (hbody : location ≠ "body") (hform : location ≠ "formData")
    {body : Option Json} {key : String} {v : Json} {op op' : Operation} (hv : v.WellFormed)
    (hop : Operation.ofJson? v = some op)
    (hop' : Operation.ofJson? (convertEntry body (key, v)).2 = some op') :
    op'.parameters.filterMap (declared? location) =
      op.parameters.filterMap (declared? location) := by
  have hsame : (convertEntry body (key, v)).2 = v →
      op'.parameters.filterMap (declared? location) =
        op.parameters.filterMap (declared? location) := by
    intro h
    rw [h, hop] at hop'
    cases hop'
    rfl
  cases v with
  | object ms =>
      rw [convertEntry] at hop' hsame
      split at hop'
      · obtain ⟨hnodup, -⟩ := Json.wellFormed_object_iff.1 hv
        obtain ⟨ns, hns, -, hget, -⟩ :=
          Swagger.exists_withBody body (Ordered.ofWrites (ms.flatMap Swagger.convertedMember))
        rw [Swagger.get?_convertedMembers hnodup
          (by decide)] at hget
        rw [Swagger.convertOperation_object, hns] at hop'
        rw [Operation.parameters_object hop', Operation.parameters_object hop, Json.field?,
          Json.field?, hget]
        cases get? ms "parameters" with
        | none => rfl
        | some u => exact filterMap_splitItems hbody hform _
      · next hkey => exact hsame (by rw [if_neg hkey])
  | null | bool _ | number _ | string _ | list _ =>
      refine hsame ?_
      rw [convertEntry]
      split
      · cases body <;> rfl
      · rfl

/-- **What an operation declares keeps its order.** -/
theorem declared_operation (hbody : location ≠ "body") (hform : location ≠ "formData")
    {item : List (String × Json)} (hitem : (Json.object item).WellFormed) {key : String} {v : Json}
    (hv : (key, v) ∈ item) {op op' : Operation} (hop : Operation.ofJson? v = some op)
    (hop' : Operation.ofJson? (modernizeAt key (convertEntry (sharedBody item) (key, v)).2) =
      some op') :
    op'.parameters.filterMap (declared? location) =
      op.parameters.filterMap (declared? location) := by
  have hdrawn := DrawnOperation.convertEntry hitem (drawn_sharedBody hitem) hv
  have hread : (Operation.ofJson? (convertEntry (sharedBody item) (key, v)).2).isSome := by
    rw [← Swagger.bothReadable_convertEntry, hop]
    rfl
  obtain ⟨converted, hconverted⟩ := Option.isSome_iff_exists.1 hread
  rw [parameters_modernizeAt (fun ms hms => hdrawn.nodup_keys hitem hms) hconverted hop',
    filterMap_modernize (hdrawn.wellFormed_parameters hitem hconverted)]
  exact declared_convertEntry hbody hform (hitem.of_standsIn (.member hv .whole)) hop hconverted

end EndpointBindings
