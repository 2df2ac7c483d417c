import EndpointBindings.Proofs.Document.Sources
import Mathlib.Algebra.GroupWithZero.Nat
import Mathlib.Data.List.Flatten
import Mathlib.Data.List.Nodup
import Mathlib.Data.List.Perm.Subperm

/-!
# Operations and endpoints

A document declares operations, each under a key of a path item.  The routes are a table of tables:
its keys are normalized paths, and below each path the verbs.  Paths that differ in their kind of
brackets have one normalized form, keys that differ in letter case name one verb, and the table has
one place for either.  What is written there last stays: a later path replaces all endpoints of an
earlier one, and within one item a later key those of an earlier key.

`Document.Keeps` says which operations that leaves.  The endpoints are the operations that are kept,
no others, and there are as many (`operations_extracted`).
-/

namespace EndpointBindings

open Ordered (get? keys lastOf)

/-- An operation that a document declares: the path, its item, the key in it with the verb that the
key names, and what stands there. -/
structure DeclaredOperation where
  path : String
  item : PathItem
  key : String
  verb : Verb
  operation : Operation

namespace DeclaredOperation

/-- The operation at an entry of a path item. -/
def read? (path : String) (item : PathItem) (entry : String × Json) :
    Option DeclaredOperation := do
  let verb ← Verb.ofKey? entry.1
  let operation ← Operation.ofJson? entry.2
  return { path, item, key := entry.1, verb, operation }

/-- The endpoint of the operation. -/
def endpoint (doc : Document) (o : DeclaredOperation) : Endpoint :=
  endpointOf doc o.verb o.item.parameters o.operation

theorem read?_eq_some_iff {path : String} {item : PathItem} {entry : String × Json}
    {o : DeclaredOperation} : read? path item entry = some o ↔
      o.path = path ∧ o.item = item ∧ o.key = entry.1 ∧ Verb.ofKey? o.key = some o.verb ∧
        Operation.ofJson? entry.2 = some o.operation := by
  simp only [read?, bind, Option.bind_eq_some_iff, pure, Option.some.injEq]
  constructor
  · rintro ⟨verb, hverb, operation, hoperation, rfl⟩
    exact ⟨rfl, rfl, rfl, hverb, hoperation⟩
  · rintro ⟨rfl, rfl, hkey, hverb, hoperation⟩
    exact ⟨o.verb, hkey ▸ hverb, o.operation, hoperation, by rw [← hkey]⟩

theorem endpointAt?_eq (doc : Document) (path : String) (item : PathItem) (entry : String × Json) :
    endpointAt? doc item.parameters entry =
      (read? path item entry).map fun o => (o.verb, o.endpoint doc) := by
  rw [endpointAt?, read?]
  cases Verb.ofKey? entry.1 with
  | none => rfl
  | some verb =>
      cases Operation.ofJson? entry.2 with
      | none => rfl
      | some operation => rfl

end DeclaredOperation

open DeclaredOperation (read?)

/-- The operations below a path. -/
def operationsAt (path : String) (item : PathItem) : List DeclaredOperation :=
  item.entries.filterMap (read? path item)

namespace Document

/-- The operations of a document, in its order. -/
def operations (doc : Document) : List DeclaredOperation :=
  doc.spec.paths.flatMap fun (path, item) => operationsAt path item

/-- An operation is kept when no path behind its own has the same normalized form, and no operation
behind it in its item has the same verb. -/
structure Keeps (doc : Document) (o : DeclaredOperation) : Prop where
  path : ∃ before behind, doc.spec.paths = before ++ (o.path, o.item) :: behind ∧
    ∀ route ∈ behind, normalizePath route.1 ≠ normalizePath o.path
  verb : ∃ before behind, operationsAt o.path o.item = before ++ o :: behind ∧
    ∀ other ∈ behind, other.verb ≠ o.verb

/-- The operations that are kept. -/
def kept (doc : Document) : List DeclaredOperation :=
  (lastOf (fun route => normalizePath route.1) doc.spec.paths).flatMap fun (path, item) =>
    lastOf (·.verb) (operationsAt path item)

end Document

/-- The endpoint of a path and a verb. -/
def Api.endpoint? (api : Api) (path : String) (verb : Verb) : Option Endpoint :=
  (get? api.routes path).bind (get? · verb)

/-! ## Declared operations -/

theorem mem_operationsAt {path : String} {item : PathItem} {o : DeclaredOperation}
    (h : o ∈ operationsAt path item) : o.path = path ∧ o.item = item := by
  obtain ⟨entry, -, hread⟩ := List.mem_filterMap.1 h
  obtain ⟨hpath, hitem, -⟩ := DeclaredOperation.read?_eq_some_iff.1 hread
  exact ⟨hpath, hitem⟩

/-- What a document declares: under its paths, the keys that name verbs and hold operations. -/
theorem Document.mem_operations_iff {doc : Document} {o : DeclaredOperation} :
    o ∈ doc.operations ↔ (o.path, o.item) ∈ doc.spec.paths ∧ Verb.ofKey? o.key = some o.verb ∧
      ∃ value, (o.key, value) ∈ o.item.entries ∧ Operation.ofJson? value = some o.operation := by
  constructor
  · intro h
    obtain ⟨⟨path, item⟩, hroute, ho⟩ := List.mem_flatMap.1 h
    obtain ⟨⟨key, value⟩, hentry, hread⟩ := List.mem_filterMap.1 ho
    obtain ⟨rfl, rfl, rfl, hverb, hoperation⟩ := DeclaredOperation.read?_eq_some_iff.1 hread
    exact ⟨hroute, hverb, value, hentry, hoperation⟩
  · rintro ⟨hroute, hverb, value, hentry, hoperation⟩
    refine List.mem_flatMap.2 ⟨_, hroute, List.mem_filterMap.2 ⟨_, hentry, ?_⟩⟩
    exact DeclaredOperation.read?_eq_some_iff.2 ⟨rfl, rfl, rfl, hverb, hoperation⟩

theorem PathItem.nodup_keys_entries {v : Json} {item : PathItem} (hv : v.WellFormed)
    (h : PathItem.ofJson? v = some item) : (keys item.entries).Nodup := by
  obtain ⟨ms, hms, he⟩ := Option.bind_eq_some_iff.1 h
  cases hv with
  | object hkeys _ =>
      cases hms
      cases he
      exact hkeys.sublist (List.filter_sublist.map Prod.fst)
  | null | bool _ | number _ | string _ | list _ => cases hms

/-- A path and a key say which operation is meant. -/
theorem Document.nodup_operations {v : Json} {doc : Document} (hv : v.WellFormed)
    (h : Document.ofJson v = .ok doc) : (doc.operations.map fun o => (o.path, o.key)).Nodup := by
  obtain ⟨r, hr, rfl⟩ := Document.ofJson_eq_ok_iff.1 h
  rw [Document.operations, List.map_flatMap, List.nodup_flatMap]
  constructor
  · rintro ⟨path, item⟩ hroute
    obtain ⟨w, hw, hitem⟩ := Json.standsIn_of_mem_table hr hroute
    have hkeys : ((operationsAt path item).map (·.key)).Nodup := by
      refine (PathItem.nodup_keys_entries (hv.of_standsIn hw) hitem).sublist
        (Ordered.map_filterMap_sublist ?_)
      intro entry _ o ho
      exact (DeclaredOperation.read?_eq_some_iff.1 ho).2.2.1
    refine List.Nodup.of_map Prod.snd ?_
    rwa [List.map_map]
  · have hpaths : ((Spec.ofRecord r).paths.map Prod.fst).Nodup :=
      Json.nodup_keys_table hv hr "paths" _
    refine (List.pairwise_map.1 hpaths).imp ?_
    rintro ⟨path, item⟩ ⟨path', item'⟩ hne
    refine List.disjoint_left.2 fun pair hpair hpair' => hne ?_
    obtain ⟨o, ho, rfl⟩ := List.mem_map.1 hpair
    obtain ⟨o', ho', he⟩ := List.mem_map.1 hpair'
    exact (mem_operationsAt ho).1.symm.trans
      ((congrArg Prod.fst he).symm.trans (mem_operationsAt ho').1)

/-! ## Kept operations -/

theorem Document.mem_kept_iff {doc : Document} {o : DeclaredOperation} :
    o ∈ doc.kept ↔ doc.Keeps o := by
  constructor
  · intro h
    obtain ⟨⟨path, item⟩, hroute, ho⟩ := List.mem_flatMap.1 h
    obtain ⟨rfl, rfl⟩ := mem_operationsAt ((Ordered.lastOf_sublist _ _).subset ho)
    exact ⟨Ordered.mem_lastOf_iff.1 hroute, Ordered.mem_lastOf_iff.1 ho⟩
  · intro h
    exact List.mem_flatMap.2
      ⟨_, Ordered.mem_lastOf_iff.2 h.path, Ordered.mem_lastOf_iff.2 h.verb⟩

theorem Document.kept_sublist (doc : Document) : doc.kept.Sublist doc.operations := by
  have hitems : ∀ routes : List (String × PathItem),
      (routes.flatMap fun (path, item) => lastOf (·.verb) (operationsAt path item)).Sublist
        (routes.flatMap fun (path, item) => operationsAt path item) := by
    intro routes
    induction routes with
    | nil => exact List.Sublist.refl []
    | cons route routes ih =>
        exact (Ordered.lastOf_sublist _ _).append ih
  exact (hitems _).trans ((Ordered.lastOf_sublist _ doc.spec.paths).flatMap _)

/-- The endpoints of a path are those of its operations, the last ones of their verbs. -/
theorem endpointsOf_perm (doc : Document) (path : String) (item : PathItem) :
    (endpointsOf doc item).Perm
      ((lastOf (·.verb) (operationsAt path item)).map fun o => (o.verb, o.endpoint doc)) := by
  have hwrites : item.entries.filterMap (endpointAt? doc item.parameters) =
      (operationsAt path item).map fun o => (o.verb, o.endpoint doc) := by
    rw [operationsAt, List.map_filterMap]
    exact List.filterMap_congr fun entry _ => DeclaredOperation.endpointAt?_eq doc path item entry
  rw [endpointsOf, hwrites]
  exact Ordered.ofWrites_map_perm _ _ _

theorem routesOf_perm (doc : Document) : (routesOf doc).Perm
    ((lastOf (fun route => normalizePath route.1) doc.spec.paths).map fun route =>
      (normalizePath route.1, endpointsOf doc route.2)) :=
  Ordered.ofWrites_map_perm _ _ _

/-- **What the table holds**: the endpoints of the operations that are kept. -/
theorem Document.endpoint?_eq_some_iff (doc : Document) (path : String) (verb : Verb)
    (e : Endpoint) : doc.api.endpoint? path verb = some e ↔
      ∃ o ∈ doc.kept, normalizePath o.path = path ∧ o.verb = verb ∧ o.endpoint doc = e := by
  have hroutes : ∀ es, get? doc.api.routes path = some es ↔
      ∃ route ∈ lastOf (fun route => normalizePath route.1) doc.spec.paths,
        normalizePath route.1 = path ∧ endpointsOf doc route.2 = es := by
    intro es
    refine (Ordered.get?_eq_some_iff_of_perm (Ordered.nodup_keys_ofWrites _)
      (routesOf_perm doc)).trans ?_
    simp only [List.mem_map, Prod.mk.injEq]
  have hverbs : ∀ route : String × PathItem, get? (endpointsOf doc route.2) verb = some e ↔
      ∃ o ∈ lastOf (·.verb) (operationsAt route.1 route.2), o.verb = verb ∧ o.endpoint doc = e := by
    intro route
    refine (Ordered.get?_eq_some_iff_of_perm (Ordered.nodup_keys_ofWrites _)
      (endpointsOf_perm doc route.1 route.2)).trans ?_
    simp only [List.mem_map, Prod.mk.injEq]
  rw [Api.endpoint?, Option.bind_eq_some_iff]
  constructor
  · rintro ⟨es, hes, he⟩
    obtain ⟨route, hroute, rfl, rfl⟩ := (hroutes es).1 hes
    obtain ⟨o, ho, rfl, rfl⟩ := (hverbs route).1 he
    have hpath := (mem_operationsAt ((Ordered.lastOf_sublist _ _).subset ho)).1
    exact ⟨o, List.mem_flatMap.2 ⟨route, hroute, ho⟩, by rw [hpath], rfl, rfl⟩
  · rintro ⟨o, ho, rfl, rfl, rfl⟩
    obtain ⟨route, hroute, ho⟩ := List.mem_flatMap.1 ho
    have hpath := (mem_operationsAt ((Ordered.lastOf_sublist _ _).subset ho)).1
    exact ⟨endpointsOf doc route.2, (hroutes _).2 ⟨route, hroute, by rw [hpath], rfl⟩,
      (hverbs route).2 ⟨o, ho, rfl, rfl⟩⟩

theorem Api.endpointCount_eq (api : Api) :
    api.endpointCount = (api.routes.map fun route => route.2.length).sum := by
  rw [Api.endpointCount, List.sum_eq_foldr, List.foldr_map]

theorem Document.endpointCount_eq (doc : Document) : doc.api.endpointCount = doc.kept.length := by
  let routes := lastOf (fun route => normalizePath route.1) doc.spec.paths
  calc doc.api.endpointCount
      = ((routesOf doc).map fun route => route.2.length).sum := Api.endpointCount_eq _
    _ = ((routes.map fun route => (normalizePath route.1, endpointsOf doc route.2)).map
          fun route => route.2.length).sum := ((routesOf_perm doc).map _).sum_nat
    _ = (routes.map fun route => (lastOf (·.verb) (operationsAt route.1 route.2)).length).sum := by
        rw [List.map_map]
        refine congrArg List.sum (List.map_congr_left fun route _ => ?_)
        exact (endpointsOf_perm doc route.1 route.2).length_eq.trans (List.length_map _)
    _ = doc.kept.length := List.length_flatMap.symm

/-- **No operation is lost** but those that a later one replaces.  In a document of version 3, an
operation is told by its path and its key.  The endpoints are those of the operations that are kept,
each under its normalized path and its verb, and nothing else; there are as many, and as many as the
document declares exactly when all of them are kept. -/
theorem operations_extracted {v : Json} {doc : Document} (hv : v.WellFormed)
    (hversion : Version.detect v = .ok .openApi3) (hdoc : Document.ofJson v = .ok doc) :
    Api.ofJson v = .ok doc.api ∧
    (doc.operations.map fun o => (o.path, o.key)).Nodup ∧
    doc.kept.Sublist doc.operations ∧
    (∀ o, o ∈ doc.kept ↔ doc.Keeps o) ∧
    (∀ path verb e, doc.api.endpoint? path verb = some e ↔
      ∃ o, doc.Keeps o ∧ normalizePath o.path = path ∧ o.verb = verb ∧
        endpointOf doc o.verb o.item.parameters o.operation = e) ∧
    doc.api.endpointCount = doc.kept.length ∧
    (doc.api.endpointCount = doc.operations.length ↔ ∀ o ∈ doc.operations, doc.Keeps o) := by
  refine ⟨?_, doc.nodup_operations hv hdoc, doc.kept_sublist, fun _ => doc.mem_kept_iff, ?_,
    doc.endpointCount_eq, ?_⟩
  · exact Api.ofJson_of_document (toOpenApi3_of_openApi3 hversion) hdoc
  · intro path verb e
    rw [doc.endpoint?_eq_some_iff]
    simp only [Document.mem_kept_iff]
    rfl
  · rw [doc.endpointCount_eq]
    constructor
    · intro hlength o ho
      rw [← Document.mem_kept_iff, doc.kept_sublist.eq_of_length hlength]
      exact ho
    · intro hall
      have hnodup : doc.operations.Nodup := List.Nodup.of_map _ (doc.nodup_operations hv hdoc)
      exact Nat.le_antisymm doc.kept_sublist.length_le
        (hnodup.subperm fun o ho => Document.mem_kept_iff.2 (hall o ho)).length_le

/-! ### Documents of empty operations -/

/-- A document with an empty operation under each key of each path. -/
def operationsTree (paths : List (String × List String)) : Json :=
  .object [
    ("openapi", .string "3.0.0"),
    ("paths", .object (paths.map fun (path, ks) => (path, .object (ks.map (·, .object [])))))]

/-- Three operations on notes, two of them for one verb. -/
def notesTree : Json := operationsTree [("/notes/{id}", ["get", "DELETE", "delete"])]

theorem notes_extracted :
    notesTree.WellFormed ∧ Version.detect notesTree = .ok .openApi3 ∧
    ∃ doc, Document.ofJson notesTree = .ok doc ∧
      doc.operations.map (·.key) = ["get", "DELETE", "delete"] ∧
      doc.kept.map (·.key) = ["get", "delete"] ∧ doc.api.endpointCount = 2 ∧
      ∃ o, doc.Keeps o ∧ o.key = "delete" ∧
        doc.api.endpoint? "/notes/[id]" .delete = some (o.endpoint doc) := by
  have hv : notesTree.WellFormed := by
    simp [notesTree, operationsTree, keys, or_imp, forall_and, Json.WellFormed.string]
  have hversion : Version.detect notesTree = .ok .openApi3 := rfl
  have hdoc : Document.ofJson notesTree = .ok ⟨notesTree, Spec.ofRecord _⟩ := rfl
  obtain ⟨-, -, -, hkept, hendpoint, hcount, -⟩ := operations_extracted hv hversion hdoc
  have hlast := (hkept _).1 (List.mem_cons_of_mem _ List.mem_cons_self)
  exact ⟨hv, hversion, _, hdoc, rfl, rfl, hcount, _, hlast, rfl,
    (hendpoint _ _ _).2 ⟨_, hlast, rfl, rfl, rfl⟩⟩

/-- Two operations of which one is lost: the second path takes the place of the first. -/
theorem operation_lost :
    let tree := operationsTree [("/a/{x}", ["get"]), ("/a/[x]", ["post"])]
    tree.WellFormed ∧ Version.detect tree = .ok .openApi3 ∧
    ∃ doc, Document.ofJson tree = .ok doc ∧ doc.operations.length = 2 ∧
      doc.api.endpointCount = 1 ∧
      ∃ o ∈ doc.operations, doc.api.endpoint? (normalizePath o.path) o.verb = none := by
  refine ⟨?_, rfl, _, rfl, rfl, rfl, _, List.mem_cons_self, rfl⟩
  simp [operationsTree, keys, or_imp, forall_and, Json.WellFormed.string]

end EndpointBindings
