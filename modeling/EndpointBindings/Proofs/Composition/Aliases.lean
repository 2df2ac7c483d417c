import EndpointBindings.Proofs.Composition.Expansion

/-!
# Aliases in a composition

A member that is a reference stands for the schema that the reference leads to, and that schema is
looked at once.  Its own members are gone into, a reference of its own is not.  So the two ways to
write an alias of a schema are not alike:

| the alias | as a member |
| :-- | :-- |
| `{"$ref": target}` | adds nothing, as if the member were left out |
| `{"allOf": [{"$ref": target}]}` | adds what the target adds, unless it is met on the way there |

`alias_composed` says both, for the keywords that a composition takes over from its members.
-/

namespace EndpointBindings.Schema

/-! ## Schemas that add nothing -/

/-- A schema that is nothing but a reference. -/
def pointing (reference : String) : Schema := { facets := { ref := some reference } }

/-- The schema with other members. -/
def withMembers (s : Schema) (ms : List Schema) : Schema := { s with allOf := some ms }

/-- A schema that is nothing but composed of one reference. -/
def composedOf (reference : String) : Schema := ({} : Schema).withMembers [pointing reference]

/-- The schema without its members. -/
def withoutMembers (s : Schema) : Schema := { s with allOf := none }

/-- Two schemas agree in the keywords that a composition takes over from its members. -/
structure MergedAlike (a b : Schema) : Prop where
  properties : a.properties = b.properties
  required : a.facets.required = b.facets.required
  types : a.facets.types = b.facets.types
  format : a.facets.format = b.facets.format
  description : a.facets.description = b.facets.description

/-- The schema has none of these keywords. -/
def AddsNothing (s : Schema) : Prop := s.MergedAlike {}

theorem MergedAlike.refl (s : Schema) : s.MergedAlike s := ⟨rfl, rfl, rfl, rfl, rfl⟩

theorem MergedAlike.symm {a b : Schema} (h : a.MergedAlike b) : b.MergedAlike a :=
  ⟨h.properties.symm, h.required.symm, h.types.symm, h.format.symm, h.description.symm⟩

theorem MergedAlike.trans {a b c : Schema} (h : a.MergedAlike b) (h' : b.MergedAlike c) :
    a.MergedAlike c :=
  ⟨h.properties.trans h'.properties, h.required.trans h'.required, h.types.trans h'.types,
    h.format.trans h'.format, h.description.trans h'.description⟩

theorem addsNothing_pointing (reference : String) : (pointing reference).AddsNothing :=
  ⟨rfl, rfl, rfl, rfl, rfl⟩

theorem addsNothing_composedOf (reference : String) : (composedOf reference).AddsNothing :=
  ⟨rfl, rfl, rfl, rfl, rfl⟩

/-- No member is among these keywords. -/
theorem MergedAlike.of_withoutMembers {a b : Schema}
    (h : a.withoutMembers = b.withoutMembers) : a.MergedAlike b :=
  have halike : a.withoutMembers.MergedAlike b.withoutMembers := h ▸ .refl a.withoutMembers
  ⟨halike.properties, halike.required, halike.types, halike.format, halike.description⟩

/-- Merging such a schema leaves everything as it is. -/
theorem AddsNothing.merge {member : Schema} (h : member.AddsNothing) (s : Schema) :
    s.merge member = s := by
  cases s
  simp only [Schema.merge, h.properties, h.required, h.types, h.format, h.description,
    mergeProperties, mergeRequired, Option.orElse_eq_orElse, Option.orElse_eq_or, Option.or_none]

/-- It may be left out of a list that is merged. -/
theorem AddsNothing.foldl {member : Schema} (h : member.AddsNothing) (b : Schema)
    (L L' : List Schema) : (L ++ member :: L').foldl Schema.merge b =
      (L ++ L').foldl Schema.merge b := by
  rw [List.foldl_append, List.foldl_cons, h.merge, List.foldl_append]

/-! ## Expansions, member by member -/

theorem expansion_cons_iff {root : Json} {path : List String} {member : Schema}
    {ms L : List Schema} :
    Expansion root path (member :: ms) L ↔
      ∃ L₁ L₂, Expansion root path [member] L₁ ∧ Expansion root path ms L₂ ∧ L = L₁ ++ L₂ := by
  constructor
  · intro h
    cases h with
    | repeated href hmem h => exact ⟨[], _, .repeated href hmem .nil, h, rfl⟩
    | dangling href hgone h => exact ⟨[], _, .dangling href hgone .nil, h, rfl⟩
    | reference href hfresh ht htarget h =>
        exact ⟨_, _, .reference href hfresh ht htarget .nil, h, by rw [List.append_nil]⟩
    | inline hnone hmember h =>
        exact ⟨_, _, .inline hnone hmember .nil, h, by rw [List.append_nil]⟩
  · rintro ⟨L₁, L₂, h₁, h₂, rfl⟩
    cases h₁ with
    | repeated href hmem h =>
        cases h
        exact .repeated href hmem h₂
    | dangling href hgone h =>
        cases h
        exact .dangling href hgone h₂
    | reference href hfresh ht htarget h =>
        cases h
        rw [List.append_nil]
        exact .reference href hfresh ht htarget h₂
    | inline hnone hmember h =>
        cases h
        rw [List.append_nil]
        exact .inline hnone hmember h₂

theorem expansion_append_iff {root : Json} {path : List String} {ms ms' L : List Schema} :
    Expansion root path (ms ++ ms') L ↔
      ∃ L₁ L₂, Expansion root path ms L₁ ∧ Expansion root path ms' L₂ ∧ L = L₁ ++ L₂ := by
  induction ms generalizing L with
  | nil =>
      constructor
      · intro h
        exact ⟨[], L, .nil, h, rfl⟩
      · rintro ⟨L₁, L₂, h₁, h₂, rfl⟩
        cases h₁
        exact h₂
  | cons member ms ih =>
      rw [List.cons_append, expansion_cons_iff]
      constructor
      · rintro ⟨L₁, _, h₁, h, rfl⟩
        obtain ⟨L₂, L₃, h₂, h₃, rfl⟩ := ih.1 h
        exact ⟨L₁ ++ L₂, L₃, expansion_cons_iff.2 ⟨L₁, L₂, h₁, h₂, rfl⟩, h₃,
          (List.append_assoc ..).symm⟩
      · rintro ⟨_, L₃, h, h₃, rfl⟩
        obtain ⟨L₁, L₂, h₁, h₂, rfl⟩ := expansion_cons_iff.1 h
        exact ⟨L₁, L₂ ++ L₃, h₁, ih.2 ⟨L₂, L₃, h₂, h₃, rfl⟩, List.append_assoc ..⟩

/-- A reference that no member refers to makes no difference on the path. -/
theorem Expansion.congr_path {root : Json} {path path' : List String} {link : String}
    {ms L : List Schema} (h : Expansion root path ms L)
    (hpath : ∀ r, r ≠ link → (r ∈ path' ↔ r ∈ path))
    (hms : ∀ member ∈ ms, member.facets.ref ≠ some link)
    (hL : ∀ e ∈ L, ∀ member ∈ e.members, member.facets.ref ≠ some link) :
    Expansion root path' ms L := by
  induction h generalizing path' with
  | nil => exact .nil
  | repeated href hmem _ ih =>
      obtain ⟨hmember, hms⟩ := List.forall_mem_cons.1 hms
      have hne := fun he => hmember (href.trans (congrArg some he))
      exact .repeated href ((hpath _ hne).2 hmem) (ih hpath hms hL)
  | dangling href hgone _ ih =>
      exact .dangling href hgone (ih hpath (List.forall_mem_cons.1 hms).2 hL)
  | @reference path member target ms L L' r href hfresh ht _ _ ihTarget ih =>
      obtain ⟨hmember, hms⟩ := List.forall_mem_cons.1 hms
      obtain ⟨hTL', hL⟩ := List.forall_mem_append.1 hL
      obtain ⟨hT, hL'⟩ := List.forall_mem_cons.1 hTL'
      have hne : r ≠ link := fun he => hmember (href.trans (congrArg some he))
      have hdeeper : ∀ q, q ≠ link → (q ∈ r :: path' ↔ q ∈ r :: path) := by
        intro q hq
        rw [List.mem_cons, List.mem_cons, hpath q hq]
      exact .reference href (fun hmem => hfresh ((hpath r hne).1 hmem)) ht
        (ihTarget hdeeper hT hL') (ih hpath hms hL)
  | inline hnone _ _ ihMember ih =>
      obtain ⟨hML', hL⟩ := List.forall_mem_append.1 hL
      obtain ⟨hM, hL'⟩ := List.forall_mem_cons.1 hML'
      exact .inline hnone (ihMember hpath hM hL')
        (ih hpath (List.forall_mem_cons.1 hms).2 hL)

/-! ## Composing, with members or without -/

theorem foldl_merge_withoutMembers (s : Schema) (L : List Schema) :
    (L.foldl merge s.withoutMembers).withoutMembers = L.foldl merge s.withoutMembers := by
  rw [foldl_frame]
  rfl

/-- There is an expansion, also of no members. -/
theorem exists_expansion {root : Json} (hroot : root.WellFormed) {s : Schema}
    (hs : s.NamesDistinct) :
    ∃ L, Expansion root [] s.members L ∧
      (compose root s).withoutMembers = L.foldl merge s.withoutMembers := by
  by_cases hmembers : s.members = []
  · refine ⟨[], by rw [hmembers]; exact .nil, ?_⟩
    rw [compose_of_no_members root hmembers]
    rfl
  · obtain ⟨L, hL, hout⟩ := exists_expansion_of_members hroot hs hmembers
    refine ⟨L, hL, ?_⟩
    rw [hout]
    exact foldl_merge_withoutMembers s L

theorem compose_withoutMembers {root : Json} (hroot : root.WellFormed) {s : Schema}
    (hs : s.NamesDistinct) {L : List Schema} (hL : Expansion root [] s.members L) :
    (compose root s).withoutMembers = L.foldl merge s.withoutMembers := by
  obtain ⟨L', hL', hout⟩ := exists_expansion hroot hs
  rw [hout, hL'.unique hL]

theorem namesDistinct_pointing (reference : String) : (pointing reference).NamesDistinct :=
  .intro List.nodup_nil (fun _ h => absurd h List.not_mem_nil)

theorem NamesDistinct.withMembers {s : Schema} (hs : s.NamesDistinct) {ms : List Schema}
    (hms : ∀ member ∈ ms, member.NamesDistinct) : (s.withMembers ms).NamesDistinct :=
  .intro hs.own hms

/-! ## The theorem -/

/-- Nothing that a reference is expanded to, far as it leads, refers to `link`. -/
def NotMetBelow (root : Json) (link reference : String) : Prop :=
  ∀ L, Expansion root [] [pointing reference] L →
    ∀ e ∈ L, ∀ member ∈ e.members, member.facets.ref ≠ some link

/-- What an alias that is a reference expands to: the reference, which is not gone through. -/
theorem expansion_pointing {root : Json} {link target : String}
    (hlink : resolve? root link = some (pointing target)) :
    Expansion root [] [pointing link] [pointing target] :=
  .reference rfl List.not_mem_nil hlink .nil .nil

/-- What an alias that is composed of one reference expands to: itself, and what the reference
does. -/
theorem expansion_composedOf {root : Json} {link target : String} {L : List Schema}
    (hlink : resolve? root link = some (composedOf target))
    (hL : Expansion root [] [pointing target] L) (hunmet : NotMetBelow root link target)
    (hne : target ≠ link) :
    Expansion root [] [pointing link] (composedOf target :: L) := by
  have hbelow : Expansion root [link] (composedOf target).members L := by
    refine hL.congr_path ?_ ?_ (hunmet L hL)
    · intro r hr
      rw [List.mem_singleton, iff_false_right List.not_mem_nil]
      exact hr
    · intro member hmem
      cases List.mem_singleton.1 hmem
      exact fun he => hne (Option.some.inj he)
  have halone : Expansion root [] [pointing link] (composedOf target :: L ++ []) :=
    .reference rfl List.not_mem_nil hlink hbelow .nil
  rwa [List.append_nil] at halone

/-- **A reference to a bare reference adds nothing to a composition.**  Let `link` stand in the
place of `target` among the members of a schema.  When `link` leads to a schema that is nothing but
a reference to `target`, composing gives what it gives without the member; so the alias can stand
for its target only where the target adds nothing that shows.  When `link` leads to a schema that
is composed of that reference, and is not met below it, composing gives what it gives with the
target itself. -/
theorem alias_composed {root : Json} (hroot : root.WellFormed) {s : Schema}
    (hs : s.NamesDistinct) {before after : List Schema} {target link : String}
    (hmembers : s.members = before ++ pointing target :: after) :
    (resolve? root link = some (pointing target) →
      MergedAlike (compose root (s.withMembers (before ++ pointing link :: after)))
          (compose root (s.withMembers (before ++ after))) ∧
      (MergedAlike (compose root (s.withMembers (before ++ pointing link :: after)))
          (compose root s) ↔
        MergedAlike (compose root (s.withMembers (before ++ after))) (compose root s))) ∧
    (resolve? root link = some (composedOf target) → NotMetBelow root link target →
      MergedAlike (compose root (s.withMembers (before ++ pointing link :: after)))
        (compose root s)) := by
  obtain ⟨L, hL, hcompose⟩ := exists_expansion hroot hs
  rw [hmembers] at hL
  obtain ⟨L₁, L', hL₁, hL', rfl⟩ := expansion_append_iff.1 hL
  obtain ⟨L₂, L₃, hL₂, hL₃, rfl⟩ := expansion_cons_iff.1 hL'
  have hdistinct : ∀ member ∈ before ++ pointing target :: after, member.NamesDistinct :=
    fun member hmem => hs.of_mem (hmembers ▸ hmem)
  rw [List.forall_mem_append, List.forall_mem_cons] at hdistinct
  obtain ⟨hbefore, -, hafter⟩ := hdistinct
  -- whatever the alias expands to stands where the target's expansion stood
  have hreplaced : ∀ {L₄}, Expansion root [] [pointing link] L₄ →
      (compose root (s.withMembers (before ++ pointing link :: after))).withoutMembers =
        (L₁ ++ (L₄ ++ L₃)).foldl merge s.withoutMembers := by
    intro L₄ hL₄
    refine compose_withoutMembers hroot (hs.withMembers ?_)
      (expansion_append_iff.2 ⟨L₁, L₄ ++ L₃, hL₁, expansion_cons_iff.2 ⟨L₄, L₃, hL₄, hL₃, rfl⟩,
        rfl⟩)
    rw [List.forall_mem_append, List.forall_mem_cons]
    exact ⟨hbefore, namesDistinct_pointing link, hafter⟩
  refine ⟨fun hlink => ?_, fun hlink hunmet => ?_⟩
  · have hleftOut : (compose root (s.withMembers (before ++ after))).withoutMembers =
        (L₁ ++ L₃).foldl merge s.withoutMembers :=
      compose_withoutMembers hroot
        (hs.withMembers (List.forall_mem_append.2 ⟨hbefore, hafter⟩))
        (expansion_append_iff.2 ⟨L₁, L₃, hL₁, hL₃, rfl⟩)
    have hsame : MergedAlike (compose root (s.withMembers (before ++ pointing link :: after)))
        (compose root (s.withMembers (before ++ after))) := by
      apply MergedAlike.of_withoutMembers
      rw [hreplaced (expansion_pointing hlink), hleftOut]
      exact (addsNothing_pointing target).foldl s.withoutMembers L₁ L₃
    exact ⟨hsame, hsame.symm.trans, hsame.trans⟩
  · apply MergedAlike.of_withoutMembers
    by_cases hne : target = link
    · rw [hreplaced (hne ▸ hL₂), hcompose]
    · rw [hreplaced (expansion_composedOf hlink hL₂ hunmet hne), hcompose, List.cons_append]
      exact (addsNothing_composedOf target).foldl s.withoutMembers L₁ (L₂ ++ L₃)

/-! ### Two aliases of one schema -/

/-- A schema with one property. -/
def recordBase : Json := .object [("properties", .object [("id", .object [])])]

def recordTo (name : String) : String := "#/components/schemas/" ++ name

/-- A component, a reference to it, and a schema that is composed of it. -/
def recordComponents : Json :=
  .object [("Base", recordBase), ("Alias", refTo (recordTo "Base")),
    ("Wrapped", .object [("allOf", .list [refTo (recordTo "Base")])])]

def recordRoot : Json := .object [("components", .object [("schemas", recordComponents)])]

theorem recordRoot_wellFormed : recordRoot.WellFormed := by
  simp [recordRoot, recordComponents, recordBase, refTo, Ordered.keys, or_imp, forall_and,
    Json.WellFormed.string]

theorem recordBase_resolved :
    resolve? recordRoot (recordTo "Base") = some (ofJson recordBase) := rfl

/-- Nothing at all is met below the component. -/
theorem record_notMetBelow (link : String) :
    NotMetBelow recordRoot link (recordTo "Base") := by
  have hbase : Expansion recordRoot [] [pointing (recordTo "Base")] [ofJson recordBase] :=
    Expansion.reference rfl List.not_mem_nil
      recordBase_resolved .nil .nil
  intro L hL e he
  rw [hL.unique hbase, List.mem_singleton] at he
  subst he
  exact fun _ hmem => absurd hmem List.not_mem_nil

theorem record_alias_composed :
    recordRoot.WellFormed ∧ (composedOf (recordTo "Base")).NamesDistinct ∧
    resolve? recordRoot (recordTo "Alias") = some (pointing (recordTo "Base")) ∧
    resolve? recordRoot (recordTo "Wrapped") = some (composedOf (recordTo "Base")) ∧
    MergedAlike (compose recordRoot (composedOf (recordTo "Alias")))
      (compose recordRoot (({} : Schema).withMembers [])) ∧
    MergedAlike (compose recordRoot (composedOf (recordTo "Wrapped")))
      (compose recordRoot (composedOf (recordTo "Base"))) := by
  have hs : (composedOf (recordTo "Base")).NamesDistinct :=
    .intro List.nodup_nil (List.forall_mem_singleton.2 (namesDistinct_pointing _))
  have hmembers : (composedOf (recordTo "Base")).members =
      [] ++ pointing (recordTo "Base") :: [] := rfl
  have hlink : resolve? recordRoot (recordTo "Alias") = some (pointing (recordTo "Base")) := rfl
  have hwrapped :
      resolve? recordRoot (recordTo "Wrapped") = some (composedOf (recordTo "Base")) := rfl
  exact ⟨recordRoot_wellFormed, hs, hlink, hwrapped,
    ((alias_composed recordRoot_wellFormed hs hmembers).1 hlink).1,
    (alias_composed recordRoot_wellFormed hs hmembers).2 hwrapped (record_notMetBelow _)⟩

/-- The property of the component is there through its pointer, and gone through the alias. -/
theorem alias_loses_properties :
    resolve? recordRoot (recordTo "Alias") = some (pointing (recordTo "Base")) ∧
    NotMetBelow recordRoot (recordTo "Alias") (recordTo "Base") ∧
    Ordered.keys (compose recordRoot (composedOf (recordTo "Base"))).ownProperties = ["id"] ∧
    (compose recordRoot (composedOf (recordTo "Alias"))).properties = none ∧
    ¬ MergedAlike (compose recordRoot (composedOf (recordTo "Alias")))
      (compose recordRoot (composedOf (recordTo "Base"))) := by
  have hbase :
      Ordered.keys (compose recordRoot (composedOf (recordTo "Base"))).ownProperties = ["id"] := by
    decide
  have hlink : (compose recordRoot (composedOf (recordTo "Alias"))).properties = none := by
    decide
  refine ⟨rfl, record_notMetBelow _, hbase, hlink, fun h => ?_⟩
  rw [ownProperties, ← h.properties, hlink] at hbase
  cases hbase

end EndpointBindings.Schema
