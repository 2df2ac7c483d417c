import EndpointBindings.Proofs.Dialects.Assembly

/-!
# Which references a converted document holds

The conversion from Swagger 2 first takes over parts of a document, each into its place, and then
rewrites what it has taken over.

| step | what becomes of references |
|---|---|
| parts are taken over (`convertedMembers`) | none is added (`assembled_convertedMembers`) |
| the rewrite (`modernize`) | each is renamed and none is added (`mem_references_modernize_iff`) |

The rewrite loses references in one place only, below a `nullable` with a mark of Swagger 2 beside
it, for the mark takes its place (`Json.Kept`).  So the references of the converted document are
those that survive, renamed (`mem_references_convert_iff`).
-/

namespace EndpointBindings

open Ordered (keys get?)
open Swagger (modernize modernizeAt modernizeMembers modernizeRef renameNullable copiedMember
  componentsOf)

/-! ## The marks of null -/

theorem Swagger.nodup_keys_renameNullable {ms : List (String × Json)} (h : (keys ms).Nodup) :
    (keys (renameNullable ms)).Nodup := by
  rw [renameNullable]
  split
  · exact Ordered.nodup_keys_put (Ordered.nodup_keys_swapErase h _) _ _
  · exact h

/-- The members after the marks are renamed are those before, without a `nullable` beside a mark. -/
theorem Swagger.mem_renameNullable_iff {ms : List (String × Json)} (hnodup : (keys ms).Nodup)
    {key : String} {v : Json} : (key, v) ∈ renameNullable ms ↔
      ∃ key', (key', v) ∈ ms ∧ (key' = "nullable" → "x-nullable" ∉ keys ms) ∧
        key = if key' = "x-nullable" then "nullable" else key' := by
  have hmem : ∀ {key v}, (key, v) ∈ ms ↔ get? ms key = some v :=
    ⟨Ordered.get?_of_mem hnodup, Ordered.mem_of_get?⟩
  have hrenamed : (key, v) ∈ renameNullable ms ↔ get? (renameNullable ms) key = some v :=
    ⟨Ordered.get?_of_mem (nodup_keys_renameNullable hnodup), Ordered.mem_of_get?⟩
  rw [hrenamed, get?_renameNullable hnodup]
  simp only [hmem, ← Ordered.get?_eq_none_iff]
  constructor
  · intro h
    split at h
    · next hkey =>
        cases hmark : get? ms "x-nullable" with
        | some mark =>
            rw [hmark] at h
            exact ⟨"x-nullable", hmark.trans h, by simp, by simp [hkey]⟩
        | none =>
            rw [hmark, Option.none_or] at h
            exact ⟨"nullable", h, fun _ => rfl, by simp [hkey]⟩
    · next hkey =>
        split at h
        · cases h
        · next hmark => exact ⟨key, h, fun h => absurd h hkey, by simp [hmark]⟩
  · rintro ⟨key', hv, hkept, rfl⟩
    by_cases hmark : key' = "x-nullable"
    · subst hmark
      simp [hv]
    · by_cases hkey : key' = "nullable"
      · subst hkey
        simp [hkept rfl, hv]
      · simp [hmark, hkey, hv]

/-! ## The rewrite -/

namespace Json

/-- A tree stands in another one, and not below a `nullable` that a mark of Swagger 2 replaces. -/
inductive Kept (w : Json) : Json → Prop
  | whole : Kept w w
  | item {x : Json} {xs : List Json} (hx : x ∈ xs) (h : Kept w x) : Kept w (list xs)
  | member {v : Json} {key : String} {ms : List (String × Json)} (hv : (key, v) ∈ ms)
      (hkept : key = "nullable" → "x-nullable" ∉ keys ms) (h : Kept w v) : Kept w (object ms)

theorem Kept.standsIn {v w : Json} (h : Kept w v) : w.StandsIn v := by
  induction h with
  | whole => exact .whole
  | item hx _ ih => exact .item hx ih
  | member hv _ _ ih => exact .member hv ih

/-- An object that is kept stands in the rewritten tree, rewritten. -/
theorem Kept.standsIn_modernize {v : Json} {ns : List (String × Json)} (hv : v.WellFormed)
    (h : Kept (object ns) v) : (modernize (object ns)).StandsIn (modernize v) := by
  induction h with
  | whole => exact .whole
  | @item x xs hx _ ih =>
      have hitem : modernize x ∈ Swagger.modernizeItems xs := by
        rw [Swagger.modernizeItems_eq]
        exact List.mem_map_of_mem hx
      exact .item hitem (ih (wellFormed_list_iff.1 hv x hx))
  | @member u key ms hu hkept hin ih =>
      obtain ⟨hnodup, hvalues⟩ := wellFormed_object_iff.1 hv
      have hvalue : modernizeAt key u = modernize u := by
        cases hin with
        | whole | item | member => rfl
      have hmember : (key, modernize u) ∈ modernizeMembers ms := by
        rw [Swagger.modernizeMembers_eq, ← hvalue]
        exact List.mem_map.2 ⟨_, hu, rfl⟩
      have hrenamed := (Swagger.mem_renameNullable_iff
        (by rwa [Swagger.keys_modernizeMembers])).2 ⟨key, hmember,
          by rwa [Swagger.keys_modernizeMembers], rfl⟩
      exact .member hrenamed (ih (hvalues key u hu))

/-- Every object in the rewritten tree is the rewrite of one that is kept. -/
theorem exists_kept_of_standsIn {key : String} {v : Json} {ns' : List (String × Json)}
    (hv : v.WellFormed) (h : (object ns').StandsIn (modernizeAt key v)) :
    ∃ ns, Kept (object ns) v ∧ object ns' = modernize (object ns) := by
  cases v with
  | object ms =>
      obtain ⟨hnodup, hvalues⟩ := wellFormed_object_iff.1 hv
      generalize hobject : modernizeAt key (object ms) = tree at h
      cases h with
      | whole => exact ⟨ms, .whole, hobject.symm⟩
      | item => cases hobject
      | member hy hin =>
          cases hobject
          obtain ⟨key', hy, hkept, -⟩ := (Swagger.mem_renameNullable_iff
            (by rwa [Swagger.keys_modernizeMembers])).1 hy
          rw [Swagger.keys_modernizeMembers] at hkept
          obtain ⟨u, hu, rfl⟩ := exists_of_mem_modernizeMembers hy
          have hdepth := depth_lt_of_mem_members hu
          obtain ⟨ns, hns, he⟩ := exists_kept_of_standsIn (hvalues key' u hu) hin
          exact ⟨ns, .member hu hkept hns, he⟩
  | list xs =>
      generalize hlist : modernizeAt key (list xs) = tree at h
      cases h with
      | whole => cases hlist
      | member => cases hlist
      | item hy hin =>
          cases hlist
          rw [Swagger.modernizeItems_eq] at hy
          obtain ⟨x, hx, rfl⟩ := List.mem_map.1 hy
          have hdepth := depth_lt_of_mem hx
          rw [← Swagger.modernizeAt_of_ne (by decide : "" ≠ "$ref")] at hin
          obtain ⟨ns, hns, he⟩ := exists_kept_of_standsIn (wellFormed_list_iff.1 hv x hx) hin
          exact ⟨ns, .item hx hns, he⟩
  | string target =>
      rw [modernizeAt] at h
      split at h <;> cases h
  | null | bool _ | number _ => cases h
termination_by v.depth

end Json

theorem Swagger.mem_modernize_ref_iff {ns : List (String × Json)} (hnodup : (keys ns).Nodup)
    {target : String} : ("$ref", Json.string target) ∈ renameNullable (modernizeMembers ns) ↔
      ∃ source, ("$ref", Json.string source) ∈ ns ∧ modernizeRef source = target := by
  rw [mem_renameNullable_iff (by rwa [keys_modernizeMembers])]
  constructor
  · rintro ⟨key, hmember, -, hkey⟩
    have href : key = "$ref" := by
      split at hkey
      · exact absurd hkey (by decide)
      · exact hkey.symm
    subst href
    obtain ⟨u, hu, he⟩ := exists_of_mem_modernizeMembers hmember
    cases u with
    | string source =>
        rw [modernizeAt, if_pos rfl] at he
        cases he
        exact ⟨source, hu, rfl⟩
    | null | bool _ | number _ | list _ | object _ => cases he
  · rintro ⟨source, hsource, rfl⟩
    refine ⟨"$ref", ?_, by simp, by simp⟩
    rw [modernizeMembers_eq]
    exact List.mem_map.2 ⟨_, hsource, rfl⟩

/-- **The rewrite renames every reference that it keeps**, and adds none. -/
theorem mem_references_modernize_iff {v : Json} (hv : v.WellFormed) {target : String} :
    target ∈ (modernize v).references ↔ ∃ ns source, Json.Kept (.object ns) v ∧
      ("$ref", Json.string source) ∈ ns ∧ modernizeRef source = target := by
  have hnodup : ∀ {ns}, Json.Kept (.object ns) v → (keys ns).Nodup := fun h =>
    (Json.wellFormed_object_iff.1 (hv.of_standsIn h.standsIn)).1
  rw [Json.mem_references_iff]
  constructor
  · rintro ⟨ns', hin, htarget⟩
    rw [← Swagger.modernizeAt_of_ne (by decide : "" ≠ "$ref")] at hin
    obtain ⟨ns, hns, he⟩ := Json.exists_kept_of_standsIn hv hin
    cases he
    obtain ⟨source, hsource, he⟩ := (Swagger.mem_modernize_ref_iff (hnodup hns)).1 htarget
    exact ⟨ns, source, hns, hsource, he⟩
  · rintro ⟨ns, source, hns, hsource, he⟩
    exact ⟨_, hns.standsIn_modernize hv,
      (Swagger.mem_modernize_ref_iff (hnodup hns)).2 ⟨source, hsource, he⟩⟩

/-! ## The converted document -/

/-- A reference of a document survives the conversion: it stands in a part that is taken over, and
not below a `nullable` that the rewrite replaces. -/
def Survives (doc : Json) (source : String) : Prop :=
  ∃ ns, Json.Kept (.object ns) (.object (convertedMembers doc)) ∧
    ("$ref", Json.string source) ∈ ns

/-- **The references of a converted document** are those that survive, renamed. -/
theorem mem_references_convert_iff {doc : Json} (hdoc : doc.WellFormed) {target : String} :
    target ∈ (Swagger.convert doc).references ↔
      ∃ source, Survives doc source ∧ modernizeRef source = target := by
  have hconvert : Swagger.convert doc = modernize (.object (convertedMembers doc)) := rfl
  rw [hconvert, mem_references_modernize_iff (assembled_convertedMembers hdoc).wellFormed]
  constructor
  · rintro ⟨ns, source, hns, hsource, he⟩
    exact ⟨source, ⟨ns, hns, hsource⟩, he⟩
  · rintro ⟨source, ⟨ns, hns, hsource⟩, he⟩
    exact ⟨ns, source, hns, hsource, he⟩

/-- What survives is a reference of the document. -/
theorem Survives.mem_references {doc : Json} (hdoc : doc.WellFormed) {source : String}
    (h : Survives doc source) : source ∈ doc.references := by
  obtain ⟨ns, hns, hsource⟩ := h
  exact (assembled_convertedMembers hdoc).references
    (Json.mem_references_iff.2 ⟨ns, hns.standsIn, hsource⟩)

/-- The definitions are taken over as they are. -/
theorem survives_of_definitions {doc v : Json} (hv : doc.get? "definitions" = some v)
    {ns : List (String × Json)} (hns : Json.Kept (.object ns) v) {source : String}
    (hsource : ("$ref", Json.string source) ∈ ns) : Survives doc source := by
  have hschemas : ("schemas", v) ∈ componentsOf doc := by
    rw [componentsOf, copiedMember, hv]
    exact List.mem_cons_self
  have hcomponents : ("components", Json.object (componentsOf doc)) ∈ convertedMembers doc := by
    refine Ordered.mem_of_get? ?_
    rw [get?_convertedMembers_components, if_neg]
    rw [List.isEmpty_iff]
    exact List.ne_nil_of_mem hschemas
  exact ⟨ns, .member hcomponents (fun h => absurd h (by decide))
    (.member hschemas (fun h => absurd h (by decide)) hns), hsource⟩

/-- No reference keeps the old name of a definition. -/
theorem not_prefix_modernizeRef (source : String) :
    ¬ "#/definitions/".toList <+: (modernizeRef source).toList :=
  Swagger.not_prefix_section source _ List.mem_cons_self

end EndpointBindings
