import EndpointBindings.Document.Printer
import EndpointBindings.Proofs.Document.Sources
import EndpointBindings.Proofs.Schema.RoundTrip

/-!
# Reading a document that was written

The typed view is written with all its fields, so that nothing is left to a default when it is read
again.  Each part comes back by itself, under a condition that what was read always meets:

| part | comes back when |
| :-- | :-- |
| title block, servers | always: they are written as the records that they are |
| path item | none of its other entries is called `parameters` |
| component schemas | each schema comes back |
| components that are absent | always: they are written as null, which is no record |

The two conditions are kept by reading: a path item's other entries are those with other keys, and
schemas that were read come back (`Schema.readsBack_ofJson`).
-/

namespace EndpointBindings

open Ordered (mapValues)

/-! ## The parts -/

theorem Info.ofJson?_toJson (i : Info) : Info.ofJson? i.toJson = some i := by
  obtain ⟨title, version, description⟩ := i
  cases description <;> rfl

theorem Server.ofJson?_toJson (s : Server) : Server.ofJson? s.toJson = some s := by
  obtain ⟨url, description⟩ := s
  cases description <;> rfl

theorem readServers?_toJson (servers : List Server) :
    readServers? (.list (servers.map Server.toJson)) = some servers := by
  show (servers.map Server.toJson).mapM Server.ofJson? = some servers
  induction servers with
  | nil => rfl
  | cons s servers ih =>
      rw [List.map_cons, List.mapM_cons, Server.ofJson?_toJson, ih]
      rfl

/-- A table comes back when each of its values does. -/
theorem Json.entries_mapValues {α : Type} {read : Json → Option α} {write : α → Json}
    {es : List (String × α)} (h : ∀ e ∈ es, read (write e.2) = some e.2) :
    entries read (mapValues write es) = es := by
  induction es with
  | nil => rfl
  | cons e es ih =>
      show entries read ((e.1, write e.2) :: mapValues write es) = e :: es
      rw [entries, List.filterMap_cons]
      dsimp only
      rw [h e List.mem_cons_self]
      exact congrArg (e :: ·) (ih fun e' he' => h e' (List.mem_cons_of_mem e he'))

theorem PathItem.ofJson?_toJson {item : PathItem}
    (h : ∀ e ∈ item.entries, e.1 ≠ "parameters") : PathItem.ofJson? item.toJson = some item := by
  obtain ⟨parameters, entries⟩ := item
  have hentries : entries.filter (·.1 ≠ "parameters") = entries :=
    List.filter_eq_self.2 fun e he => decide_eq_true (h e he)
  show some (PathItem.mk parameters
    ((("parameters", Json.list parameters) :: entries).filter (·.1 ≠ "parameters"))) = _
  rw [List.filter_cons_of_neg (Bool.false_ne_true), hentries]

/-- The other entries of a path item that was read have other keys. -/
theorem PathItem.key_ne_parameters {v : Json} {item : PathItem}
    (h : PathItem.ofJson? v = some item) : ∀ e ∈ item.entries, e.1 ≠ "parameters" := by
  intro e he
  obtain ⟨ms, -, hitem⟩ := Option.bind_eq_some_iff.1 h
  cases hitem
  exact of_decide_eq_true (List.mem_filter.1 he).2

theorem readComponents?_toJson {schemas : List (String × Schema)}
    (h : ∀ p ∈ schemas, p.2.ReadsBack) :
    readComponents? (componentsToJson schemas) = some schemas := by
  show some ((Schema.namedSchemas? (.object (Schema.namedToJson schemas))).getD []) = _
  rw [Schema.namedSchemas?_toJson h]
  rfl

/-! ## The whole view -/

/-- The view comes back when its path items and its component schemas do. -/
theorem Spec.ofJson_toJson {s : Spec}
    (hpaths : ∀ route ∈ s.paths, ∀ e ∈ route.2.entries, e.1 ≠ "parameters")
    (hschemas : ∀ p ∈ s.componentSchemas, p.2.ReadsBack) : Spec.ofJson s.toJson = .ok s := by
  obtain ⟨openapi, info, paths, components, servers⟩ := s
  have hinfo : (Info.ofJson? info.toJson).getD {} = info := by
    rw [Info.ofJson?_toJson]
    rfl
  have htable : Json.entries PathItem.ofJson? (mapValues PathItem.toJson paths) = paths :=
    Json.entries_mapValues fun route hroute => PathItem.ofJson?_toJson (hpaths route hroute)
  have hcomponents : readComponents? (.orNull componentsToJson components) = components := by
    cases components with
    | none => rfl
    | some schemas => exact readComponents?_toJson hschemas
  have hservers : (readServers? (.list (servers.map Server.toJson))).getD [] = servers := by
    rw [readServers?_toJson]
    rfl
  show Except.ok (Spec.mk openapi ((Info.ofJson? info.toJson).getD {})
    (Json.entries PathItem.ofJson? (mapValues PathItem.toJson paths))
    (readComponents? (.orNull componentsToJson components))
    ((readServers? (.list (servers.map Server.toJson))).getD [])) = _
  rw [hinfo, htable, hcomponents, hservers]

/-- **What was read and is written is read again as it was**: a schema from any value, and the typed
view of any tree that has one. -/
theorem reads_back :
    (∀ v : Json, Schema.ofJson (Schema.ofJson v).toJson = Schema.ofJson v) ∧
    ∀ (v : Json) (doc : Document), Document.ofJson v = .ok doc →
      Document.ofJson doc.spec.toJson = .ok { raw := doc.spec.toJson, spec := doc.spec } := by
  refine ⟨Schema.readsBack_ofJson, ?_⟩
  intro v doc hdoc
  obtain ⟨r, hr, rfl⟩ := Document.ofJson_eq_ok_iff.1 hdoc
  have hspec : Spec.ofJson (Spec.ofRecord r).toJson = .ok (Spec.ofRecord r) := by
    refine Spec.ofJson_toJson ?_ ?_
    · intro route hroute
      obtain ⟨-, w, -, -, hread⟩ := Json.exists_of_mem_table hroute
      exact PathItem.key_ne_parameters hread
    · intro p hp
      obtain ⟨w, -, hw⟩ := Spec.exists_of_mem_componentSchemas hr hp
      rw [hw]
      exact Schema.readsBack_ofJson w
  rw [Document.ofJson]
  dsimp only
  rw [hspec]
  rfl

/-! ### A document of lists -/

/-- Records written as lists, an empty table of properties, an empty list of members, and nulls. -/
def listTree : Json :=
  .list [.string "3.1.0", .list [.string "Lists"],
    .object [("/a", .object [("get", .list []), ("parameters", .list [.null]), ("x", .null)]),
      ("/b", .null)],
    .list [.object [("Empty", .object [("properties", .object []), ("allOf", .list []),
      ("items", .bool false), ("default", .null)])]],
    .list [.list [.string "https://lists"]]]

/-- It is read, and its view comes back. -/
theorem listTree_reads_back :
    ∃ doc : Document, Document.ofJson listTree = .ok doc ∧
      doc.spec.paths.map (·.1) = ["/a"] ∧ doc.spec.baseUrl = "https://lists" ∧
      Document.ofJson doc.spec.toJson = .ok { raw := doc.spec.toJson, spec := doc.spec } := by
  obtain ⟨doc, hdoc⟩ : ∃ doc, Document.ofJson listTree = .ok doc := ⟨_, rfl⟩
  obtain ⟨-, hback⟩ := reads_back
  refine ⟨doc, hdoc, ?_, ?_, hback listTree doc hdoc⟩
  · cases hdoc
    rfl
  · cases hdoc
    rfl

end EndpointBindings
