import EndpointBindings.Proofs.Dialects.References
import EndpointBindings.Proofs.Dialects.Renaming
import EndpointBindings.Proofs.References.Components

/-!
# References keep their targets

The conversion from Swagger 2 moves the definitions and renames the references to them.  The two fit
together: a pointer below `#/definitions/` leads, under its new name, to the rewrite of what it led
to (`follow?_convert`), whatever its segments are but the three keys that the rewrite itself touches
(`touchedKeys`).  A step into a rewritten tree is a step into the tree (`child?_modernize`), and so
a walk is a walk (`walk?_modernize`).
-/

namespace EndpointBindings

open Ordered (keys get?)
open Swagger (modernize modernizeRef componentsOf)

/-! ## Pointers -/

theorem segments?_definitions (pointer : String) :
    Json.segments? ("#/definitions/" ++ pointer) = some ("definitions" :: Json.path pointer) := by
  refine segments?_eq_some_iff.2 ⟨"definitions".toList ++ '/' :: pointer.toList, ?_, ?_⟩
  · simp
  · rw [Text.pieces_append_cons (by decide), List.map_cons, path_eq]
    rfl

theorem segments?_schemas (pointer : String) :
    Json.segments? ("#/components/schemas/" ++ pointer) =
      some ("components" :: "schemas" :: Json.path pointer) := by
  refine segments?_eq_some_iff.2
    ⟨"components".toList ++ '/' :: ("schemas".toList ++ '/' :: pointer.toList), ?_, ?_⟩
  · simp
  · rw [Text.pieces_append_cons (by decide), Text.pieces_append_cons (by decide), List.map_cons,
      List.map_cons, path_eq]
    rfl

theorem modernizeRef_definitions (pointer : String) :
    modernizeRef ("#/definitions/" ++ pointer) = "#/components/schemas/" ++ pointer := by
  have hdrop : Text.dropPrefix? "#/definitions/" ("#/definitions/" ++ pointer) = some pointer := by
    rw [Text.dropPrefix?, String.toList_append, Text.afterPrefix?_append, Option.map_some,
      String.ofList_toList]
  rw [modernizeRef, Swagger.sections, List.findSome?_cons]
  dsimp only
  rw [hdrop]
  rfl

/-! ## Where a pointer leads -/

/-- The keys whose members the rewrite of a tree touches. -/
def touchedKeys : List String := ["$ref", "x-nullable", "nullable"]

/-- One step into a rewritten tree is the step into the tree. -/
theorem child?_modernize {v : Json} (hv : v.WellFormed) {s : String} (hs : s ∉ touchedKeys) :
    (modernize v).child? s = (v.child? s).map modernize := by
  cases v with
  | object ms => exact get?_rewritten (Json.wellFormed_object_iff.1 hv).1 hs
  | list xs =>
      rw [modernize, Swagger.modernizeItems_eq, Json.child?, Json.child?, Option.map_bind]
      exact congrArg _ (funext fun n => List.getElem?_map ..)
  | null | bool _ | number _ | string _ => rfl

theorem walk?_modernize {v : Json} (hv : v.WellFormed) {path : List String}
    (hpath : ∀ s ∈ path, s ∉ touchedKeys) :
    (modernize v).walk? path = (v.walk? path).map modernize := by
  induction path generalizing v with
  | nil => rfl
  | cons s path ih =>
      obtain ⟨hs, hpath⟩ := List.forall_mem_cons.1 hpath
      rw [Json.walk?, Json.walk?, child?_modernize hv hs, Option.map_bind, Option.bind_map]
      refine Option.bind_congr fun w hw => ?_
      exact ih (hv.of_child? hw) hpath

/-- What a walk reaches without a step to `nullable` is kept. -/
theorem kept_of_walk? {v w : Json} {path : List String} (hpath : "nullable" ∉ path)
    (h : v.walk? path = some w) : Json.Kept w v := by
  induction path generalizing v with
  | nil =>
      cases h
      exact .whole
  | cons s path ih =>
      obtain ⟨hs, hpath⟩ := not_or.1 (mt List.mem_cons.2 hpath)
      obtain ⟨u, hu, hw⟩ := Option.bind_eq_some_iff.1 h
      cases v with
      | object ms =>
          exact .member (Ordered.mem_of_get? hu) (fun he => absurd he.symm hs) (ih hpath hw)
      | list xs =>
          obtain ⟨n, -, hn⟩ := Option.bind_eq_some_iff.1 hu
          exact .item (List.mem_of_getElem? hn) (ih hpath hw)
      | null | bool _ | number _ | string _ => cases hu

theorem get?_componentsOf_schemas (doc : Json) :
    get? (componentsOf doc) "schemas" = doc.get? "definitions" := by
  simp [componentsOf, Ordered.get?_append, get?_copiedMember, get?_tableMember]

/-- The definitions stand under the component schemas, rewritten. -/
theorem child?_components_convert (doc : Json) :
    ((Swagger.convert doc).child? "components").bind (·.child? "schemas") =
      (doc.get? "definitions").map modernize := by
  have hmark : "x-nullable" ∉ keys (componentsOf doc) := by
    refine Ordered.get?_eq_none_iff.1 ?_
    simp [componentsOf, Ordered.get?_append, get?_copiedMember, get?_tableMember]
  have hcomponents : (Swagger.convert doc).child? "components" =
      if (componentsOf doc).isEmpty then none else some (modernize (.object (componentsOf doc))) := by
    rw [convert_eq, Json.child?, Swagger.get?_modernizeMembers, get?_convertedMembers_components]
    split <;> rfl
  rw [hcomponents, ← get?_componentsOf_schemas]
  split
  · next hempty =>
      rw [List.isEmpty_iff.1 hempty]
      rfl
  · rw [modernize_object hmark, Option.bind_some, Json.child?, Swagger.get?_modernizeMembers]
    exact congrArg (Option.map · _) (funext (Swagger.modernizeAt_of_ne (by decide)))

/-- **A renamed pointer leads to the rewrite of what it led to.** -/
theorem follow?_convert {doc : Json} (hdoc : doc.WellFormed) {pointer : String}
    (hpath : ∀ s ∈ Json.path pointer, s ∉ touchedKeys) :
    (Swagger.convert doc).follow? ("#/components/schemas/" ++ pointer) =
      (doc.follow? ("#/definitions/" ++ pointer)).map modernize := by
  have hdefinitions : doc.child? "definitions" = doc.get? "definitions" := by
    cases doc with
    | list xs => rfl
    | object ms => rfl
    | null | bool _ | number _ | string _ => rfl
  rw [Json.follow?, Json.follow?, segments?_schemas, segments?_definitions, Option.bind_some,
    Option.bind_some, Json.walk?, Json.walk?, hdefinitions]
  simp only [Json.walk?]
  rw [← Option.bind_assoc, child?_components_convert, Option.bind_map, Option.map_bind]
  refine Option.bind_congr fun w hw => ?_
  exact walk?_modernize (hdoc.of_child? (hdefinitions.trans hw)) hpath

/-! ## The theorem -/

/-- **References keep their targets.**  A Swagger 2 document comes out of the conversion with each
reference to a definition renamed.  A pointer below the definitions that names none of the touched
keys leads to something exactly when it did before, and then to the rewrite of that.  The references
of the converted document are those that survive the conversion, renamed.  All of these are
references of the document, and those of its definitions are among them. -/
theorem references_keep_targets {doc : Json} (hdoc : doc.WellFormed)
    (hversion : Version.detect doc = .ok .swagger2) :
    ∃ tree, toOpenApi3 doc = .ok tree ∧
      (∀ pointer, modernizeRef ("#/definitions/" ++ pointer) = "#/components/schemas/" ++ pointer) ∧
      (∀ pointer, (∀ s ∈ Json.path pointer, s ∉ touchedKeys) →
        tree.follow? ("#/components/schemas/" ++ pointer) =
          (doc.follow? ("#/definitions/" ++ pointer)).map modernize) ∧
      (∀ target, target ∈ tree.references ↔
        ∃ source, Survives doc source ∧ modernizeRef source = target) ∧
      (∀ source, Survives doc source → source ∈ doc.references) ∧
      (∀ v ns source, doc.get? "definitions" = some v → Json.Kept (.object ns) v →
        ("$ref", Json.string source) ∈ ns → Survives doc source) ∧
      ∀ target ∈ tree.references, ¬ "#/definitions/".toList <+: target.toList := by
  refine ⟨Swagger.convert doc, toOpenApi3_of_swagger2 hversion, modernizeRef_definitions,
    fun _ => follow?_convert hdoc, fun _ => mem_references_convert_iff hdoc,
    fun _ => Survives.mem_references hdoc,
    fun _ _ _ hv hns hsource => survives_of_definitions hv hns hsource, fun target htarget => ?_⟩
  obtain ⟨source, -, rfl⟩ := (mem_references_convert_iff hdoc).1 htarget
  exact not_prefix_modernizeRef source

/-! ### A definition under a name with a slash -/

/-- A member in the second part of a book refers to a definition with a slash in its name. -/
def libraryDefinitions : List (String × Json) :=
  [("Author/Editor", .object [("type", .string "string"), ("x-nullable", .bool true)]),
    ("Book", .object [("allOf", .list [.object [],
      .object [("properties", .object [
        ("written/by", .object [("$ref", .string "#/definitions/Author~1Editor")])])]])])]

def libraryTree : Json :=
  .object [("swagger", .string "2.0"), ("definitions", .object libraryDefinitions)]

theorem libraryTree_targets :
    libraryTree.WellFormed ∧ Version.detect libraryTree = .ok .swagger2 ∧
    ∃ tree, toOpenApi3 libraryTree = .ok tree ∧
      tree.follow? ("#/components/schemas/" ++ Json.pointerTo ["Author/Editor"]) =
        some (.object [("type", .string "string"), ("nullable", .bool true)]) ∧
      tree.follow? ("#/components/schemas/" ++
          Json.pointerTo ["Book", "allOf", "1", "properties", "written/by"]) =
        some (.object [("$ref", .string "#/components/schemas/Author~1Editor")]) ∧
      "#/components/schemas/Author~1Editor" ∈ tree.references := by
  have hdoc : libraryTree.WellFormed := by
    simp [libraryTree, libraryDefinitions, keys, or_imp, forall_and, Json.WellFormed.string,
      Json.WellFormed.bool]
  have hversion : Version.detect libraryTree = .ok .swagger2 := rfl
  obtain ⟨tree, htree, hnames, htargets, hreferences, -, hsurvive, -⟩ :=
    references_keep_targets hdoc hversion
  have hleads : ∀ {path}, path ≠ [] → (∀ s ∈ path, s ∉ touchedKeys) →
      tree.follow? ("#/components/schemas/" ++ Json.pointerTo path) =
        ((Json.object libraryDefinitions).walk? path).map modernize := by
    intro path hne hpath
    rw [htargets _ (by rwa [path_pointerTo hne]), Json.follow?, segments?_definitions,
      path_pointerTo hne]
    rfl
  have hmember : (Json.object libraryDefinitions).walk?
      ["Book", "allOf", "1", "properties", "written/by"] =
        some (.object [("$ref", .string "#/definitions/Author~1Editor")]) := rfl
  refine ⟨hdoc, hversion, tree, htree, (hleads (by decide) (by decide)).trans rfl, ?_, ?_⟩
  · rw [hleads (by decide) (by decide), hmember]
    rfl
  · exact (hreferences _).2 ⟨_, hsurvive _ _ _ rfl (kept_of_walk? (by decide) hmember)
      List.mem_cons_self, hnames "Author~1Editor"⟩

end EndpointBindings
