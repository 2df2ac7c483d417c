import EndpointBindings.Output.Render
import EndpointBindings.Proofs.Json.Pointers
import EndpointBindings.Proofs.Schema.Keywords
import EndpointBindings.Proofs.Tables
import EndpointBindings.Route.Extract

/-!
# References to components

A reference is read twice.  Where schemas are composed it is a pointer, followed segment by segment
through the document (`Schema.resolve?`).  Where validators are emitted it is a name: the text after
the last slash, looked up among the declared components (`emitRef`).

The two agree on a reference that is written as the pointer to the component of its name, and what
stands before the last slash makes no difference to what is emitted (`reference_meaning`).  So a
reference into another file is emitted like one to the component of the same name
(`foreign_reference_lazy`).
-/

namespace EndpointBindings

open Ordered (get?)

/-- The local pointer to the component schema of a name. -/
def componentPointer (name : String) : String := "#/components/schemas/" ++ name

/-- A reference is a local pointer to a declared component schema, which stands there. -/
structure Document.LeadsTo (doc : Document) (reference name : String) (component : Schema) :
    Prop where
  segments : Json.segments? reference = some ["components", "schemas", name]
  resolved : Schema.resolve? doc.raw reference = some component
  declared : get? doc.spec.componentSchemas name = some component

/-! ## The text of a pointer -/

theorem not_mem_refName (reference : String) : '/' ∉ (refName reference).toList := by
  rw [refName, String.toList_ofList, List.mem_reverse]
  intro h
  have hne := List.all_eq_true.1 List.all_takeWhile _ h
  exact absurd rfl (of_decide_eq_true hne)

/-- What follows the last slash is the name. -/
theorem refName_eq {reference : String} {before name : List Char}
    (hreference : reference.toList = before ++ '/' :: name) (hname : '/' ∉ name) :
    refName reference = String.ofList name := by
  have hall : ∀ c ∈ name.reverse, (c ≠ '/' : Bool) = true := by
    intro c hc
    have hne : c ≠ '/' := fun h => hname (h ▸ List.mem_reverse.1 hc)
    simpa using hne
  rw [refName, hreference, List.reverse_append, List.reverse_cons, List.append_assoc,
    List.takeWhile_append_of_pos hall]
  simp

theorem toList_componentPointer (name : String) :
    (componentPointer name).toList = "#/".toList ++
      ("components".toList ++ '/' :: ("schemas".toList ++ '/' :: name.toList)) := by
  unfold componentPointer
  simp

/-- The name of a pointer to a component is read back from it. -/
theorem refName_componentPointer (reference : String) :
    refName (componentPointer (refName reference)) = refName reference := by
  have hlist : (componentPointer (refName reference)).toList =
      "#/components/schemas".toList ++ '/' :: (refName reference).toList := by
    rw [toList_componentPointer]
    simp
  rw [refName_eq hlist (not_mem_refName reference), String.ofList_toList]

/-- A pointer into the component schemas is the pointer to the name after its last slash, and leads
to what that name is read as. -/
theorem segments?_eq_components_iff {reference name : String} :
    Json.segments? reference = some ["components", "schemas", name] ↔
      reference = componentPointer (refName reference) ∧
        name = String.ofList (Json.unescape (refName reference).toList) := by
  rw [segments?_eq_some_iff]
  constructor
  · rintro ⟨cs, hlist, hpieces⟩
    have hjoined := Text.joined_pieces '/' cs
    obtain ⟨p, ps, hcut, hcomponents, hps⟩ := List.map_eq_cons_iff.1 hpieces
    obtain ⟨q, qs, rfl, hschemas, hqs⟩ := List.map_eq_cons_iff.1 hps
    obtain ⟨r, rs, rfl, hname, hrs⟩ := List.map_eq_cons_iff.1 hqs
    cases List.map_eq_nil_iff.1 hrs
    have hp : p = "components".toList := eq_of_unescape hcomponents (by simp) (by simp)
    have hq : q = "schemas".toList := eq_of_unescape hschemas (by simp) (by simp)
    have hmem : r ∈ Text.pieces '/' cs := by simp [hcut]
    have hr : '/' ∉ r := Text.not_mem_of_mem_pieces hmem
    rw [hcut, hp, hq] at hjoined
    have hcs : cs = "components".toList ++ '/' :: ("schemas".toList ++ '/' :: r) := by
      rw [← hjoined]
      simp [List.intercalate, List.intersperse]
    have hreference : reference.toList = "#/components/schemas".toList ++ '/' :: r := by
      rw [hlist, hcs]
      simp
    rw [refName_eq hreference hr, String.toList_ofList]
    refine ⟨?_, hname.symm⟩
    rw [← String.toList_inj, hlist, hcs, toList_componentPointer, String.toList_ofList (l := r)]
  · rintro ⟨hreference, rfl⟩
    refine ⟨"components".toList ++ '/' :: ("schemas".toList ++ '/' :: (refName reference).toList),
      ?_, ?_⟩
    · rw [← toList_componentPointer, ← hreference]
    · rw [Text.pieces_append_cons (by simp), Text.pieces_append_cons (by simp),
        Text.pieces_of_not_mem (not_mem_refName reference)]
      simp [Json.unescape]

/-! ## The declared components -/

/-- What the typed view takes from a block of components that is an object. -/
theorem componentSchemas_eq {v : Json} {doc : Document} {block : List (String × Json)}
    (hdoc : Document.ofJson v = .ok doc) (hblock : v.get? "components" = some (.object block)) :
    doc.raw = v ∧
      doc.spec.componentSchemas = ((get? block "schemas").bind Schema.namedSchemas?).getD [] := by
  obtain ⟨ms, rfl⟩ : ∃ ms, v = .object ms := by
    cases v with
    | object ms => exact ⟨ms, rfl⟩
    | _ => cases hblock
  cases hdoc
  refine ⟨rfl, ?_⟩
  have hget : get? ms "components" = some (.object block) := hblock
  simp only [Spec.componentSchemas, Spec.ofRecord, Json.field?, hget]
  rfl

/-- A declared component stands where the pointer to its name leads. -/
theorem resolve?_of_declared {v : Json} {doc : Document} {block : List (String × Json)}
    (hdoc : Document.ofJson v = .ok doc) (hblock : v.get? "components" = some (.object block))
    {reference name : String} {component : Schema}
    (hsegments : Json.segments? reference = some ["components", "schemas", name])
    (hdeclared : get? doc.spec.componentSchemas name = some component) :
    Schema.resolve? doc.raw reference = some component := by
  obtain ⟨hraw, hschemas⟩ := componentSchemas_eq hdoc hblock
  rw [hschemas] at hdeclared
  obtain ⟨table, htable⟩ : ∃ table, get? block "schemas" = some (.object table) := by
    match h : get? block "schemas" with
    | some (.object table) => exact ⟨table, rfl⟩
    | none | some .null | some (.bool _) | some (.number _) | some (.string _) | some (.list _) =>
        rw [h] at hdeclared
        cases hdeclared
  have hwalk : v.walk? ["components", "schemas", name] = get? table name := by
    cases v with
    | object ms =>
        have hget : get? ms "components" = some (.object block) := hblock
        show (get? ms "components").bind _ = _
        rw [hget]
        show (get? block "schemas").bind _ = _
        rw [htable]
        exact Option.bind_fun_some _
    | _ => cases hblock
  rw [htable] at hdeclared
  have hnamed : get? (Schema.ofNamed table) name = some component := hdeclared
  rw [Schema.ofNamed_eq_map, Ordered.get?_mapValues] at hnamed
  rw [Schema.resolve?, Json.follow?, hsegments, hraw]
  show (v.walk? _).map _ = _
  rw [hwalk, hnamed]

theorem leadsTo_iff {v : Json} {doc : Document} {block : List (String × Json)}
    (hdoc : Document.ofJson v = .ok doc) (hblock : v.get? "components" = some (.object block))
    {reference name : String} {component : Schema} :
    doc.LeadsTo reference name component ↔
      reference = componentPointer (refName reference) ∧
        name = String.ofList (Json.unescape (refName reference).toList) ∧
          get? doc.spec.componentSchemas name = some component := by
  rw [← and_assoc, ← segments?_eq_components_iff]
  constructor
  · intro h
    exact ⟨h.segments, h.declared⟩
  · rintro ⟨hsegments, hdeclared⟩
    exact ⟨hsegments, resolve?_of_declared hdoc hblock hsegments hdeclared, hdeclared⟩

/-! ## What is emitted for a reference -/

/-- What follows the validator of a node's kind. -/
def Node.marks (nullable : Bool) (description : Option String) (required : Bool) : String :=
  (if nullable then ".nullable()" else "") ++ callWith "describe" TypeScript.literal description
    ++ (if required then "" else ".optional()")

/-- The validator of the component whose validator is declared under a name. -/
def lazily (ident : String) : String := "z.lazy(() => " ++ ident ++ ")"

theorem Node.emitAt_ref {depth : Nat} (hdepth : depth ≤ maxEmitDepth) (known : List String)
    (reference : String) (nullable : Bool) (description : Option String) (required : Bool) :
    (⟨.ref reference, nullable, description⟩ : Node).emitAt known depth required =
      (if refName reference ∈ known then lazily (schemaIdent (refName reference)) else unknown)
        ++ Node.marks nullable description required := by
  unfold Node.emitAt Kind.emitAt
  rw [if_neg (Nat.not_lt.2 hdepth), emitRef, Node.marks, lazily]
  simp only [List.contains_iff_mem, String.append_assoc]

theorem lazily_inj {a b marks : String} : lazily a ++ marks = lazily b ++ marks ↔ a = b := by
  rw [String.append_left_inj, lazily, lazily, String.append_left_inj, String.append_right_inj]

/-- The two are told apart by their third letter. -/
theorem lazily_ne_unknown (ident marks : String) : lazily ident ++ marks ≠ unknown ++ marks := by
  intro h
  have hlist := congrArg String.toList ((String.append_left_inj marks).1 h)
  simp [lazily, unknown] at hlist

/-! ## The theorem -/

/-- A reference leads to a declared component, whose validator is declared under the identifier. -/
def Document.Denotes (doc : Document) (reference ident : String) : Prop :=
  ∃ name component, doc.LeadsTo reference name component ∧ schemaIdent name = ident

/-- The pointer to a name that needs no decoding denotes the component of that name. -/
theorem denotes_componentPointer_iff {v : Json} {doc : Document} {block : List (String × Json)}
    (hdoc : Document.ofJson v = .ok doc) (hblock : v.get? "components" = some (.object block))
    {reference ident : String}
    (hplain : Json.unescape (refName reference).toList = (refName reference).toList) :
    doc.Denotes (componentPointer (refName reference)) ident ↔
      refName reference ∈ doc.api.known ∧ schemaIdent (refName reference) = ident := by
  have hknown : refName reference ∈ doc.api.known ↔
      ∃ component, get? doc.spec.componentSchemas (refName reference) = some component := by
    rw [← Option.isSome_iff_exists, Ordered.get?_isSome_iff,
      ← Ordered.keys_mapValues (nodeIn doc) doc.spec.componentSchemas]
    rfl
  rw [hknown]
  constructor
  · rintro ⟨name, component, hleads, hident⟩
    obtain ⟨-, hname, hdeclared⟩ := (leadsTo_iff hdoc hblock).1 hleads
    rw [refName_componentPointer, hplain, String.ofList_toList] at hname
    subst hname
    exact ⟨⟨component, hdeclared⟩, hident⟩
  · rintro ⟨⟨component, hdeclared⟩, hident⟩
    refine ⟨refName reference, component, (leadsTo_iff hdoc hblock).2 ⟨?_, ?_, hdeclared⟩, hident⟩
    · rw [refName_componentPointer]
    · rw [refName_componentPointer, hplain, String.ofList_toList]

/-- **What a reference means.**  In a document of version 3 whose components are an object, take a
reference whose text after the last slash needs no decoding.  Its validator is the one of a
component exactly when the local pointer to that text leads to a declared component, and it is that
component's; otherwise it accepts any value.  Whatever its last part, a reference leads to a
declared component exactly when it is the local pointer to that part and the pointer leads there; so
the two readings of a pointer to a component agree where its last part needs no decoding. -/
theorem reference_meaning {v : Json} {doc : Document} {block : List (String × Json)}
    (hversion : Version.detect v = .ok .openApi3) (hdoc : Document.ofJson v = .ok doc)
    (hblock : v.get? "components" = some (.object block)) :
    Api.ofJson v = .ok doc.api ∧ ∀ reference : String,
      (∀ ident, doc.Denotes reference ident ↔ reference = componentPointer (refName reference) ∧
        doc.Denotes (componentPointer (refName reference)) ident) ∧
      (Json.unescape (refName reference).toList = (refName reference).toList →
        ∀ (nullable : Bool) (description : Option String) (required : Bool) (depth : Nat),
          depth ≤ maxEmitDepth →
          (∀ ident, (⟨.ref reference, nullable, description⟩ : Node).emitAt doc.api.known depth
              required = lazily ident ++ Node.marks nullable description required ↔
            doc.Denotes (componentPointer (refName reference)) ident) ∧
          ((⟨.ref reference, nullable, description⟩ : Node).emitAt doc.api.known depth required =
              unknown ++ Node.marks nullable description required ↔
            ∀ ident, ¬ doc.Denotes (componentPointer (refName reference)) ident)) := by
  constructor
  · rw [Api.ofJson, toOpenApi3_of_openApi3 hversion]
    show (Document.ofJson v).bind _ = _
    rw [hdoc]
    rfl
  · intro reference
    constructor
    · intro ident
      constructor
      · rintro ⟨name, component, hleads, hident⟩
        have hreference := ((leadsTo_iff hdoc hblock).1 hleads).1
        exact ⟨hreference, name, component, hreference ▸ hleads, hident⟩
      · rintro ⟨hreference, hdenotes⟩
        rwa [← hreference] at hdenotes
    · intro hplain nullable description required depth hdepth
      rw [Node.emitAt_ref hdepth]
      simp only [denotes_componentPointer_iff hdoc hblock hplain]
      split
      · next hknown =>
          constructor
          · intro ident
            rw [lazily_inj]
            exact (and_iff_right hknown).symm
          · refine iff_of_false (lazily_ne_unknown _ _) fun hnone => ?_
            exact hnone _ ⟨hknown, rfl⟩
      · next hunknown =>
          constructor
          · intro ident
            refine iff_of_false (fun h => lazily_ne_unknown _ _ h.symm) fun h => hunknown h.1
          · exact iff_of_true rfl fun ident h => hunknown h.1

/-! ### A guest book -/

/-- The components of the guest book: a guest is a user, and a visitor is one of another file. -/
def guestComponents : List (String × Json) :=
  [("schemas", .object [
    ("User", .object [("type", .string "string")]),
    ("Guest", .object [("$ref", .string "#/components/schemas/User")]),
    ("Visitor", .object [("$ref", .string "other.json#/components/schemas/User")])])]

def guestTree : Json :=
  .object [("openapi", .string "3.0.0"), ("components", .object guestComponents)]

def guestBook : Document where
  raw := guestTree
  spec := Spec.ofRecord [("openapi", .string "3.0.0"), ("components", .object guestComponents)]

theorem guest_meaning :
    Version.detect guestTree = .ok .openApi3 ∧ Document.ofJson guestTree = .ok guestBook ∧
    guestTree.get? "components" = some (.object guestComponents) ∧
    (⟨.ref "#/components/schemas/User", true, none⟩ : Node).emit guestBook.api.known true =
      "z.lazy(() => UserSchema).nullable()" ∧
    guestBook.Denotes "#/components/schemas/User" "UserSchema" := by
  have hversion : Version.detect guestTree = .ok .openApi3 := rfl
  have hdoc : Document.ofJson guestTree = .ok guestBook := rfl
  have hblock : guestTree.get? "components" = some (.object guestComponents) := rfl
  have hmeaning := (reference_meaning hversion hdoc hblock).2 "#/components/schemas/User"
  have hemitted := (hmeaning.2 (by decide) true none true 0 (by decide)).1 "UserSchema"
  have htext : (⟨.ref "#/components/schemas/User", true, none⟩ : Node).emit guestBook.api.known true
      = "z.lazy(() => UserSchema).nullable()" := by decide
  refine ⟨hversion, hdoc, hblock, htext, (hmeaning.1 "UserSchema").2 ⟨by decide, hemitted.1 ?_⟩⟩
  rw [← Node.emit, htext]
  decide

/-- A reference into another file denotes nothing and is emitted lazily all the same. -/
theorem foreign_reference_lazy :
    Version.detect guestTree = .ok .openApi3 ∧ Document.ofJson guestTree = .ok guestBook ∧
    guestTree.get? "components" = some (.object guestComponents) ∧
    ∃ node, ("Visitor", node) ∈ guestBook.api.schemas ∧
      node.kind = .ref "other.json#/components/schemas/User" ∧
      node.emit guestBook.api.known true = "z.lazy(() => UserSchema)" ∧
      ∀ ident, ¬ guestBook.Denotes "other.json#/components/schemas/User" ident := by
  refine ⟨rfl, rfl, rfl, .ref "other.json#/components/schemas/User", ?_, rfl, by decide, ?_⟩
  · exact List.mem_cons_of_mem _ (List.mem_cons_of_mem _ List.mem_cons_self)
  · rintro ident ⟨name, component, hleads, -⟩
    have hnone : Json.segments? "other.json#/components/schemas/User" = none := by decide
    exact absurd (hnone.symm.trans hleads.segments) (by simp)

end EndpointBindings
