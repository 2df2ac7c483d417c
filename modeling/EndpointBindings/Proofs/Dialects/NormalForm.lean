import EndpointBindings.Proofs.Dialects.Renaming

/-!
# The normal form of the tree rewrite

The rewrite of a tree goes down into every object and list, takes a key out of an object, writes
another one, and goes on into what it has just written.  Four things are said of what comes out.

| | |
| :-- | :-- |
| `Rewritten v w` | `w` holds what `v` holds, with marks of null and references put right |
| `HoldsRewritten ms ns` | the object `ns` holds the rewrites of what the object `ms` holds |
| `Modern w` | no mark and no reference of the old version is left, at any depth |
| `modernize_of_modern` | a tree in which none is left is not changed |

`Rewritten` says for each key of an object what becomes of it and of its value, and that nothing but
`nullable` is added.  It leaves the order of an object's keys open where a mark was taken out, and
fixes it everywhere else.
-/

namespace EndpointBindings.Swagger

open Ordered (keys get?)

/-! ## What a rewritten tree holds -/

/-- One tree is the other one with its references and marks of null put right, at every depth. -/
inductive Rewritten : Json → Json → Prop
  | null : Rewritten .null .null
  | bool (b : Bool) : Rewritten (.bool b) (.bool b)
  | number (n : Number) : Rewritten (.number n) (.number n)
  | string (s : String) : Rewritten (.string s) (.string s)
  | list {xs ys : List Json} (items : List.Forall₂ Rewritten xs ys) :
      Rewritten (.list xs) (.list ys)
  | object {ms ns : List (String × Json)}
      (distinct : (keys ns).Nodup)
      (order : "x-nullable" ∉ keys ms → keys ns = keys ms)
      (present : ∀ key, key ∈ keys ns ↔
        key ≠ "x-nullable" ∧ (key ∈ keys ms ∨ key = "nullable" ∧ "x-nullable" ∈ keys ms))
      (marks : ∀ v w, get? ms "x-nullable" = some v → get? ns "nullable" = some w →
        Rewritten v w)
      (references : ∀ target, get? ms "$ref" = some (.string target) →
        get? ns "$ref" = some (.string (modernizeRef target)))
      -- every other value stands under its own key, unless a mark takes its place
      (values : ∀ key v w, key ≠ "x-nullable" → (key = "nullable" → "x-nullable" ∉ keys ms) →
        (∀ target, key = "$ref" → v ≠ .string target) →
        get? ms key = some v → get? ns key = some w → Rewritten v w) :
      Rewritten (.object ms) (.object ns)

/-- At a key that no mark takes away, the rewritten object holds the rewrite of what stood there. -/
theorem get?_modernized {ms : List (String × Json)} (hnodup : (keys ms).Nodup) {key : String}
    (hmark : key ≠ "x-nullable") (hnull : key = "nullable" → "x-nullable" ∉ keys ms) :
    get? (renameNullable (modernizeMembers ms)) key = (get? ms key).map (modernizeAt key) := by
  rw [get?_renameNullable (by rwa [keys_modernizeMembers])]
  split
  · next h =>
      have hnone : get? (modernizeMembers ms) "x-nullable" = none := by
        rw [get?_modernizeMembers, Ordered.get?_eq_none_iff.2 (hnull h), Option.map_none]
      rw [hnone, Option.none_or, get?_modernizeMembers, h]
  · exact get?_modernizeMembers ms key

/-- Where `x-nullable` stood, `nullable` holds the rewrite of what it held. -/
theorem get?_modernized_mark {ms : List (String × Json)} (hnodup : (keys ms).Nodup) {v : Json}
    (hv : get? ms "x-nullable" = some v) :
    get? (renameNullable (modernizeMembers ms)) "nullable" = some (modernize v) := by
  rw [get?_renameNullable (by rwa [keys_modernizeMembers]), if_pos rfl, get?_modernizeMembers, hv,
    Option.map_some, Option.some_or, modernizeAt_of_ne (by decide)]

/-- The keys of a rewritten object: `nullable` for `x-nullable`, and the others as they were. -/
theorem mem_keys_modernized_iff {ms : List (String × Json)} (hnodup : (keys ms).Nodup)
    {key : String} : key ∈ keys (renameNullable (modernizeMembers ms)) ↔
      key ≠ "x-nullable" ∧ (key ∈ keys ms ∨ key = "nullable" ∧ "x-nullable" ∈ keys ms) := by
  rw [← Ordered.get?_isSome_iff, get?_renameNullable (by rwa [keys_modernizeMembers]),
    ← keys_modernizeMembers ms, ← Ordered.get?_isSome_iff, ← Ordered.get?_isSome_iff]
  by_cases hnull : key = "nullable"
  · subst hnull
    simp [or_comm]
  · by_cases hmark : key = "x-nullable"
    · simp [hmark]
    · simp [hnull, hmark]

/-- A value that is no reference goes through the rewrite of trees. -/
theorem modernizeAt_of_not_reference {key : String} {v : Json}
    (h : ∀ target, key = "$ref" → v ≠ .string target) : modernizeAt key v = modernize v := by
  cases v with
  | string target => exact if_neg fun hkey => h target hkey rfl
  | null | bool _ | number _ | list _ | object _ => rfl

theorem rewritten_modernize {v : Json} (hv : v.WellFormed) : Rewritten v (modernize v) := by
  induction hv with
  | null => exact .null
  | bool b => exact .bool b
  | number n => exact .number n
  | string s => exact .string s
  | list _ ih =>
      rw [modernize, modernizeItems_eq]
      exact .list (List.forall₂_map_right_iff.2 (List.forall₂_same.2 ih))
  | @object ms hnodup _ ih =>
      rw [modernize]
      refine .object (nodup_keys_renameNullable (by rwa [keys_modernizeMembers])) ?_
        (fun key => mem_keys_modernized_iff hnodup) ?_ ?_ ?_
      · intro hmark
        rw [renameNullable_of_not_mem (by rwa [keys_modernizeMembers]), keys_modernizeMembers]
      · intro v w hv hw
        rw [get?_modernized_mark hnodup hv] at hw
        cases hw
        exact ih _ v (Ordered.mem_of_get? hv)
      · intro target htarget
        rw [get?_modernized hnodup (by decide) (fun h => absurd h (by decide)), htarget]
        rfl
      · intro key v w hmark hnull hreference hv hw
        rw [get?_modernized hnodup hmark hnull, hv, Option.map_some,
          modernizeAt_of_not_reference hreference] at hw
        cases hw
        exact ih key v (Ordered.mem_of_get? hv)

/-- An object holds the rewrites of what another one holds: of its mark under `nullable`, and of
everything else under its own key. -/
structure HoldsRewritten (ms ns : List (String × Json)) : Prop where
  mark : ∀ v, get? ms "x-nullable" = some v → get? ns "nullable" = some (modernize v)
  others : ∀ key, key ≠ "x-nullable" → (key = "nullable" → "x-nullable" ∉ keys ms) →
    get? ns key = (get? ms key).map (modernizeAt key)

theorem holdsRewritten_modernize {ms ns : List (String × Json)} (hnodup : (keys ms).Nodup)
    (h : modernize (.object ms) = .object ns) : HoldsRewritten ms ns := by
  rw [modernize] at h
  cases h
  exact ⟨fun _ => get?_modernized_mark hnodup, fun _ => get?_modernized hnodup⟩

/-! ## What no rewritten tree holds -/

/-- The sections of the old version that references lead into. -/
def oldSections : List String := ["#/definitions/", "#/parameters/", "#/responses/"]

/-- A reference leads into a section of the old version. -/
def LeadsIntoOld (target : String) : Prop :=
  ∃ place ∈ oldSections, place.toList <+: target.toList

/-- No mark of null and no reference of the old version stands in a tree. -/
structure Modern (v : Json) : Prop where
  marks : ∀ ms, (Json.object ms).StandsIn v → "x-nullable" ∉ keys ms
  references : ∀ ms target, (Json.object ms).StandsIn v → ("$ref", Json.string target) ∈ ms →
    ¬ LeadsIntoOld target

theorem Modern.of_standsIn {v w : Json} (h : Modern v) (hw : w.StandsIn v) : Modern w where
  marks ms hms := h.marks ms (hms.trans hw)
  references ms target hms := h.references ms target (hms.trans hw)

theorem not_leadsIntoOld_iff {target : String} :
    ¬ LeadsIntoOld target ↔ ∀ place ∈ sections, ¬ place.1.toList <+: target.toList := by
  simp [LeadsIntoOld, oldSections, sections]

/-- A reference that leads into no section of the old version stays as it is. -/
theorem modernizeRef_of_not_leadsIntoOld {target : String} (h : ¬ LeadsIntoOld target) :
    modernizeRef target = target := by
  rcases modernizeRef_cases target with ⟨place, hplace, rest, rfl, -⟩ | ⟨-, hstays⟩
  · refine absurd ?_ (not_leadsIntoOld_iff.1 h place hplace)
    rw [String.toList_append]
    exact List.prefix_append ..
  · exact hstays

/-- **Nothing of the old version is left**, at any depth. -/
theorem modern_modernize {v : Json} (hv : v.WellFormed) : Modern (modernize v) := by
  -- every object of the rewritten tree is the rewrite of an object of the tree
  have hobject : ∀ ns, (Json.object ns).StandsIn (modernize v) →
      ∃ ms, (keys ms).Nodup ∧ ns = renameNullable (modernizeMembers ms) := by
    intro ns hns
    rw [← modernizeAt_of_ne (by decide : "" ≠ "$ref")] at hns
    obtain ⟨ms, hkept, he⟩ := Json.exists_kept_of_standsIn hv hns
    obtain ⟨hnodup, -⟩ := Json.wellFormed_object_iff.1 (hv.of_standsIn hkept.standsIn)
    rw [modernize] at he
    cases he
    exact ⟨ms, hnodup, rfl⟩
  constructor
  · intro ns hns
    obtain ⟨ms, hnodup, rfl⟩ := hobject ns hns
    exact fun hmark => ((mem_keys_modernized_iff hnodup).1 hmark).1 rfl
  · intro ns target hns htarget
    obtain ⟨ms, hnodup, rfl⟩ := hobject ns hns
    obtain ⟨source, -, rfl⟩ := (mem_modernize_ref_iff hnodup).1 htarget
    exact not_leadsIntoOld_iff.2 (not_prefix_section source)

/-- A tree without anything of the old version is not changed. -/
theorem modernize_of_modern : ∀ {v : Json}, Modern v → modernize v = v
  | .object ms, h => by
      have hvalues : ∀ e ∈ ms, (e.1, modernizeAt e.1 e.2) = e := by
        rintro ⟨key, v⟩ hv
        have hdepth := Json.depth_lt_of_mem_members hv
        have hvalue := modernize_of_modern (h.of_standsIn (.member hv .whole))
        refine congrArg (key, ·) ?_
        cases v with
        | string target =>
            rw [modernizeAt]
            split
            · next hkey =>
                subst hkey
                exact congrArg Json.string
                  (modernizeRef_of_not_leadsIntoOld (h.references ms target .whole hv))
            · rfl
        | null | bool _ | number _ | list _ | object _ => exact hvalue
      rw [modernize, modernizeMembers_eq, List.map_congr_left hvalues, List.map_id',
        renameNullable_of_not_mem (h.marks ms .whole)]
  | .list xs, h => by
      have hitems : ∀ x ∈ xs, modernize x = x := by
        intro x hx
        have hdepth := Json.depth_lt_of_mem hx
        exact modernize_of_modern (h.of_standsIn (.item hx .whole))
      rw [modernize, modernizeItems_eq, List.map_congr_left hitems, List.map_id']
  | .null, _ | .bool _, _ | .number _, _ | .string _, _ => rfl
termination_by v => v.depth

/-! ## The theorem -/

/-- **The rewrite reaches a normal form.**  A tree with each key once becomes a tree that holds the
same with marks of null and references put right, where every object of the tree becomes one that
holds the rewrites of what it held; nothing of the old version is left at any depth; and a second
rewrite changes nothing. -/
theorem modernize_normalForm {v : Json} (hv : v.WellFormed) :
    Rewritten v (modernize v) ∧
      (∀ ms ns, (Json.object ms).StandsIn v → modernize (.object ms) = .object ns →
        HoldsRewritten ms ns) ∧
      Modern (modernize v) ∧ modernize (modernize v) = modernize v := by
  have hmodern := modern_modernize hv
  refine ⟨rewritten_modernize hv, fun ms ns hms => ?_, hmodern, modernize_of_modern hmodern⟩
  exact holdsRewritten_modernize (Json.wellFormed_object_iff.1 (hv.of_standsIn hms)).1

/-! ### A mark beside the key that it becomes -/

/-- A mark that holds an object with a mark of its own, beside a `nullable` and before other keys. -/
def legacyTree : Json :=
  .object [("nullable", .bool false),
    ("x-nullable", .object [("x-nullable", .bool true), ("$ref", .string "#/responses/Gone")]),
    ("tags", .list [.object [("$ref", .string "#/parameters/Page")], .string "#/definitions/Pet"]),
    ("$ref", .string "#/definitions/Pet")]

/-- The mark takes the place of `nullable`, and the last key takes the place of the mark. -/
def modernTree : Json :=
  .object [
    ("nullable", .object [("$ref", .string "#/components/responses/Gone"),
      ("nullable", .bool true)]),
    ("$ref", .string "#/components/schemas/Pet"),
    ("tags", .list [.object [("$ref", .string "#/components/parameters/Page")],
      .string "#/definitions/Pet"])]

theorem legacyTree_normalForm :
    legacyTree.WellFormed ∧ modernize legacyTree = modernTree ∧
    Rewritten legacyTree modernTree ∧ Modern modernTree ∧ modernize modernTree = modernTree := by
  have hv : legacyTree.WellFormed := by
    simp [legacyTree, keys, or_imp, forall_and, Json.WellFormed.string, Json.WellFormed.bool]
  have hmodernize : modernize legacyTree = modernTree := rfl
  obtain ⟨hrewritten, -, hmodern, htwice⟩ := modernize_normalForm hv
  rw [hmodernize] at hrewritten hmodern htwice
  exact ⟨hv, hmodernize, hrewritten, hmodern, htwice⟩

end EndpointBindings.Swagger
