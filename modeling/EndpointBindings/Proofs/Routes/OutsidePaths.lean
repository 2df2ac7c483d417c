import EndpointBindings.Proofs.Composition.Congruence
import EndpointBindings.Proofs.Document.Sources

/-!
# What a document says outside of its paths

Everything in an API but its routes is read outside of `paths`, and so is whatever a reference leads
to that does not go through `paths`.  Documents that are the same there have the same base address
and the same component schemas (`api_eq`), and an operation of one of them has the same endpoint in
the other (`endpointsOf_eq`).
-/

namespace EndpointBindings

namespace Json

/-- A reference that goes through a member of the root. -/
def GoesThrough (key reference : String) : Prop :=
  ∃ rest, segments? reference = some (key :: rest)

/-- Objects that hold the same at every key but `paths`. -/
inductive SameOutsidePaths : Json → Json → Prop
  | object {ms ms' : List (String × Json)}
      (h : ∀ key ≠ "paths", Ordered.get? ms key = Ordered.get? ms' key) :
      SameOutsidePaths (.object ms) (.object ms')

namespace SameOutsidePaths

variable {v v' : Json}

theorem get?_eq (h : SameOutsidePaths v v') {key : String} (hkey : key ≠ "paths") :
    v.get? key = v'.get? key := by
  cases h with
  | object h => exact h key hkey

/-- A reference that does not go through `paths` leads to the same in both. -/
theorem follow?_eq (h : SameOutsidePaths v v') {reference : String}
    (href : ¬ GoesThrough "paths" reference) : v.follow? reference = v'.follow? reference := by
  rw [follow?, follow?]
  cases hsegments : segments? reference with
  | none => rfl
  | some segments =>
      cases segments with
      | nil =>
          obtain ⟨rest, -, hpieces⟩ := Option.map_eq_some_iff.1 hsegments
          rw [List.map_eq_nil_iff, Text.split, List.map_eq_nil_iff] at hpieces
          exact absurd hpieces (Text.pieces_ne_nil _ _)
      | cons key rest =>
          have hkey : key ≠ "paths" := by
            rintro rfl
            exact href ⟨rest, hsegments⟩
          have hchild : v.child? key = v'.child? key := by
            cases h with
            | object h => exact h key hkey
          rw [Option.bind_some, Option.bind_some, walk?, walk?, hchild]

theorem detect_eq (h : SameOutsidePaths v v') : Version.detect v = Version.detect v' := by
  rw [Version.detect, Version.detect, h.get?_eq (by decide : "openapi" ≠ "paths"),
    h.get?_eq (by decide : "swagger" ≠ "paths")]

section documents

variable {doc doc' : Document} (h : SameOutsidePaths v v')
  (hrefs : ∀ r ∈ v.references, ¬ GoesThrough "paths" r)
  (hdoc : Document.ofJson v = .ok doc) (hdoc' : Document.ofJson v' = .ok doc')

include h hrefs hdoc hdoc'

/-- A tree in one of the documents has the same node in the other. -/
theorem nodeIn_eq {w : Json} (hw : w.StandsIn v) :
    nodeIn doc (Schema.ofJson w) = nodeIn doc' (Schema.ofJson w) := by
  obtain ⟨r, -, rfl⟩ := Document.ofJson_eq_ok_iff.1 hdoc
  obtain ⟨r', -, rfl⟩ := Document.ofJson_eq_ok_iff.1 hdoc'
  exact nodeIn_congr_of_references (fun r hr => h.follow?_eq (hrefs r hr))
    hw.partOf.references_subset

/-- A path item of one of the documents has the same endpoints in the other. -/
theorem endpointsOf_eq {path : String} {item : PathItem} (hp : (path, item) ∈ doc.spec.paths) :
    endpointsOf doc item = endpointsOf doc' item := by
  obtain ⟨r, hr, he⟩ := Document.ofJson_eq_ok_iff.1 hdoc
  rw [he] at hp
  obtain ⟨table, htable, hread⟩ := Json.standsIn_of_mem_table hr hp
  obtain ⟨hentries, hparameters⟩ := PathItem.standsIn hread
  refine endpointsOf_congr fun u hu w hw => h.nodeIn_eq hrefs hdoc hdoc' (hw.trans ?_)
  rcases hu with ⟨key, hu⟩ | hu
  · exact (hentries key u hu).trans htable
  · exact (hparameters u hu).trans htable

/-- Outside of their routes the documents describe the same API. -/
theorem api_eq : doc'.api.baseUrl = doc.api.baseUrl ∧ doc'.api.schemas = doc.api.schemas := by
  obtain ⟨r, hr, he⟩ := Document.ofJson_eq_ok_iff.1 hdoc
  obtain ⟨r', hr', he'⟩ := Document.ofJson_eq_ok_iff.1 hdoc'
  have hget : ∀ key ≠ "paths", Ordered.get? r key = Ordered.get? r' key := by
    cases h with
    | object h =>
        cases hr
        cases hr'
        exact h
  constructor
  · have hservers : (Spec.ofRecord r').servers = (Spec.ofRecord r).servers := by
      show ((Ordered.get? r' "servers").bind readServers?).getD [] = _
      rw [← hget "servers" (by decide)]
      rfl
    show doc'.spec.baseUrl = doc.spec.baseUrl
    rw [Spec.baseUrl, Spec.baseUrl, he, he', hservers]
  · have hcomponents : doc'.spec.componentSchemas = doc.spec.componentSchemas := by
      rw [he, he']
      show ((Ordered.get? r' "components").bind readComponents?).getD [] = _
      rw [← hget "components" (by decide)]
      rfl
    show Ordered.mapValues _ doc'.spec.componentSchemas = Ordered.mapValues _ _
    rw [hcomponents]
    refine List.map_congr_left fun e hmem => ?_
    rw [he] at hmem
    obtain ⟨w, hw, hs⟩ := Spec.exists_of_mem_componentSchemas hr hmem
    rw [hs, h.nodeIn_eq hrefs hdoc hdoc' hw]

end documents

end SameOutsidePaths

end Json

end EndpointBindings
