import EndpointBindings.Proofs.Composition.Expansion
import EndpointBindings.Proofs.References.Components
import EndpointBindings.Proofs.References.Resolution

/-!
# Components in both views

A document is kept as a tree and as a typed view, and a component is read in both: declarations are
made from the table of the view, and members of a composition from the tree, where a reference
leads.  The two readings are one (`components_read_alike`): the table has what the object under
`components` / `schemas` holds, each entry read as a slot whatever its shape, and the reference to a
name resolves to that.

Only an object makes a table.  A list under `schemas` declares nothing, though a reference to a
numeral leads to one of its items.
-/

namespace EndpointBindings

open Ordered (get?)
open Schema (Expansion)

/-! ## The reference to a name -/

/-- The reference to the component of a name, escaped. -/
def componentReference (name : String) : String :=
  componentPointer (String.ofList (Json.escape name.toList))

theorem componentReference_eq (name : String) :
    componentReference name = Json.pointer [.key "components", .key "schemas", .key name] := by
  have hcomponents : Json.escape "components".toList = "components".toList := by decide
  have hschemas : Json.escape "schemas".toList = "schemas".toList := by decide
  rw [← String.toList_inj, componentReference, toList_componentPointer, Json.pointer,
    Json.pointerTo, String.toList_append]
  simp only [List.map_cons, List.map_nil, Json.PathStep.text, hcomponents, hschemas,
    String.toList_ofList, List.intercalate_cons_cons, List.intercalate_singleton,
    List.append_assoc, List.singleton_append]

/-- What the reference to a name resolves to, found step by step. -/
theorem resolve?_componentReference {ms block : List (String × Json)}
    (hblock : get? ms "components" = some (.object block)) (name : String) :
    Schema.resolve? (.object ms) (componentReference name) =
      ((get? block "schemas").bind (·.child? name)).map Schema.ofJson := by
  rw [componentReference_eq, Schema.resolve?_pointer (List.cons_ne_nil _ _)]
  simp only [List.map_cons, List.map_nil, Json.PathStep.text, Json.walk?, Json.child?, hblock,
    Option.bind_some, Option.bind_fun_some]

/-! ## The table -/

/-- A name is declared with a schema exactly when the object under `schemas` holds a value at the
name, and the schema is what the value is read as. -/
theorem declared_iff {v : Json} {doc : Document} {block : List (String × Json)}
    (hdoc : Document.ofJson v = .ok doc) (hblock : v.get? "components" = some (.object block))
    (name : String) (s : Schema) :
    get? doc.spec.componentSchemas name = some s ↔
      ∃ table entry, get? block "schemas" = some (.object table) ∧
        get? table name = some entry ∧ s = Schema.ofJson entry := by
  rw [(componentSchemas_eq hdoc hblock).2]
  match hschemas : get? block "schemas" with
  | some (.object table) =>
      have htable : ((some (Json.object table)).bind Schema.namedSchemas?).getD [] =
          Ordered.mapValues Schema.ofJson table := Schema.ofNamed_eq_map table
      rw [htable, Ordered.get?_mapValues, Option.map_eq_some_iff]
      constructor
      · rintro ⟨entry, hentry, rfl⟩
        exact ⟨table, entry, rfl, hentry, rfl⟩
      · rintro ⟨table', entry, htable', hentry, rfl⟩
        cases htable'
        exact ⟨entry, hentry, rfl⟩
  | none | some .null | some (.bool _) | some (.number _) | some (.string _) | some (.list _) =>
      refine iff_of_false (by rintro ⟨⟩) ?_
      rintro ⟨table, entry, htable, -⟩
      cases htable

/-! ## Members that refer to a component -/

/-- A member that is a reference expands to its target and what that is composed of. -/
theorem expansion_reference_iff {root : Json} {path : List String} {member target : Schema}
    {ms L : List Schema} {reference : String} (href : member.facets.ref = some reference)
    (hfresh : reference ∉ path) (htarget : Schema.resolve? root reference = some target) :
    Expansion root path (member :: ms) L ↔
      ∃ own others, L = target :: own ++ others ∧
        Expansion root (reference :: path) target.members own ∧ Expansion root path ms others := by
  constructor
  · intro h
    cases h with
    | repeated href' hmem _ =>
        cases href.symm.trans href'
        exact absurd hmem hfresh
    | dangling href' hnone _ =>
        cases href.symm.trans href'
        cases htarget.symm.trans hnone
    | reference href' _ htarget' hown hothers =>
        cases href.symm.trans href'
        cases htarget.symm.trans htarget'
        exact ⟨_, _, rfl, hown, hothers⟩
    | inline hnone _ _ => cases href.symm.trans hnone
  · rintro ⟨own, others, rfl, hown, hothers⟩
    exact .reference href hfresh htarget hown hothers

/-! ## The theorem -/

/-- **Components are read alike in both views.**  Take a document whose root and components are
objects.  The typed table has a name with a schema exactly when the object under `schemas` holds a
value at the name that is read as the schema, and then the reference to the name resolves to it; and
where `schemas` is no list, the reference resolves to what the table has and to nothing else.  So a
member of a composition that refers to the name, and is not being expanded already, expands to the
schema that is declared, followed by what this is composed of. -/
theorem components_read_alike {ms block : List (String × Json)}
    (hblock : get? ms "components" = some (.object block)) :
    ∃ doc, Document.ofJson (.object ms) = .ok doc ∧ doc.raw = .object ms ∧ ∀ name : String,
      (∀ s, get? doc.spec.componentSchemas name = some s ↔
        ∃ table entry, get? block "schemas" = some (.object table) ∧
          get? table name = some entry ∧ s = Schema.ofJson entry) ∧
      (∀ s, get? doc.spec.componentSchemas name = some s →
        Schema.resolve? doc.raw (componentReference name) = some s) ∧
      ((∀ xs, get? block "schemas" ≠ some (.list xs)) →
        Schema.resolve? doc.raw (componentReference name) =
          get? doc.spec.componentSchemas name) ∧
      ∀ s, get? doc.spec.componentSchemas name = some s →
        ∀ (path : List String) (member : Schema) (members L : List Schema),
          member.facets.ref = some (componentReference name) → componentReference name ∉ path →
            (Expansion doc.raw path (member :: members) L ↔
              ∃ own others, L = s :: own ++ others ∧
                Expansion doc.raw (componentReference name :: path) s.members own ∧
                Expansion doc.raw path members others) := by
  have hdoc : Document.ofJson (.object ms) = .ok ⟨.object ms, Spec.ofRecord ms⟩ := rfl
  refine ⟨_, hdoc, rfl, fun name => ?_⟩
  have hdeclared := declared_iff hdoc hblock name
  have hresolved : ∀ s, get? (Spec.ofRecord ms).componentSchemas name = some s →
      Schema.resolve? (.object ms) (componentReference name) = some s := by
    intro s hs
    obtain ⟨table, entry, htable, hentry, rfl⟩ := (hdeclared s).1 hs
    rw [resolve?_componentReference hblock, htable, Option.bind_some, Json.child?, hentry,
      Option.map_some]
  refine ⟨hdeclared, hresolved, fun hlist => ?_, ?_⟩
  · refine Option.ext fun s => ⟨fun hs => (hdeclared s).2 ?_, hresolved s⟩
    rw [resolve?_componentReference hblock, Option.map_eq_some_iff] at hs
    obtain ⟨entry, hentry, rfl⟩ := hs
    obtain ⟨schemas, hschemas, hchild⟩ := Option.bind_eq_some_iff.1 hentry
    cases schemas with
    | object table => exact ⟨table, entry, hschemas, hchild, rfl⟩
    | list xs => exact absurd hschemas (hlist xs)
    | null | bool _ | number _ | string _ => cases hchild
  · intro s hs path member members L href hfresh
    exact expansion_reference_iff href hfresh (hresolved s hs)

/-! ### Components of any shape -/

/-- Component schemas of which one has a name to be escaped and is no schema at all. -/
def oddComponents : List (String × Json) :=
  [("schemas", .object [
    ("a/b~1", .number (.int 5)),
    ("Base", .object [("type", .string "object")])])]

/-- A number is declared as an empty schema, and a reference to it resolves to that. -/
theorem oddComponents_alike :
    componentReference "a/b~1" = "#/components/schemas/a~1b~01" ∧
    ∃ doc, Document.ofJson (.object [("components", .object oddComponents)]) = .ok doc ∧
      get? doc.spec.componentSchemas "a/b~1" = some {} ∧
      Schema.resolve? doc.raw "#/components/schemas/a~1b~01" = some {} ∧
      get? doc.spec.componentSchemas "Missing" = none ∧
      Expansion doc.raw [] [{ facets := { ref := some "#/components/schemas/a~1b~01" } }] [{}] := by
  have hname : componentReference "a/b~1" = "#/components/schemas/a~1b~01" := by decide
  have hblock : get? [("components", Json.object oddComponents)] "components" =
      some (.object oddComponents) := rfl
  obtain ⟨doc, hdoc, -, halike⟩ := components_read_alike hblock
  obtain ⟨hdeclared, hresolved, -, hexpands⟩ := halike "a/b~1"
  have hodd : get? doc.spec.componentSchemas "a/b~1" = some {} :=
    (hdeclared {}).2 ⟨_, _, rfl, rfl, rfl⟩
  refine ⟨hname, doc, hdoc, hodd, hname ▸ hresolved _ hodd, ?_, ?_⟩
  · refine Option.eq_none_iff_forall_ne_some.2 fun s hs => ?_
    obtain ⟨table, entry, htable, hentry, -⟩ := ((halike "Missing").1 s).1 hs
    cases htable
    cases hentry
  · rw [← hname]
    exact (hexpands _ hodd [] _ [] _ rfl List.not_mem_nil).2 ⟨[], [], rfl, .nil, .nil⟩

end EndpointBindings
