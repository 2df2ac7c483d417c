import EndpointBindings.Proofs.Composition.Termination
import EndpointBindings.Proofs.Json.WellFormed

/-!
# A composition is one flat fold

`composeWithin` is recursive twice over: it composes a member before it merges it, and a member is
found by going through a reference.  What comes out needs neither to be described.  Write the schema
down, and then, from left to right, the expansion of every member that is not passed over: the list
that this gives is the schema's expansion, and the composition is that list merged from left to
right, one schema at a time.

## What is proved

| | |
| :-- | :-- |
| `Expansion root path ms L` | `L` is what the members `ms` expand to below `path` |
| `Expansion.unique` | a list of members has one expansion at most |
| `merge_assoc` | merging is associative |
| `mergesAs_of_composeWithin` | where a call ends, its result merges as the schema and its expansion |
| `FlatFold s L out` | `out` is `L` merged from left to right, field by field |
| `compose_flatFold` | the theorem |

Associativity is where well-formedness comes in.  Properties are written into a table, and writing a
table into another one is associative only if the table in the middle has each key once.
-/

namespace EndpointBindings.Schema

/-! ## The expansion of a list of members -/

/-- What members expand to: each schema in the order in which it is met, before those that it is
composed of.  `path` holds the references that lead to the members, the latest first. -/
inductive Expansion (root : Json) : List String → List Schema → List Schema → Prop
  | nil {path : List String} : Expansion root path [] []
  /-- The member is a reference that is being expanded already. -/
  | repeated {path : List String} {member : Schema} {ms L : List Schema} {reference : String} :
      member.facets.ref = some reference → reference ∈ path → Expansion root path ms L →
      Expansion root path (member :: ms) L
  /-- The member is a reference that leads nowhere. -/
  | dangling {path : List String} {member : Schema} {ms L : List Schema} {reference : String} :
      member.facets.ref = some reference → resolve? root reference = none →
      Expansion root path ms L → Expansion root path (member :: ms) L
  /-- The member is a reference and stands for what it leads to. -/
  | reference {path : List String} {member target : Schema} {ms L L' : List Schema}
      {reference : String} :
      member.facets.ref = some reference → reference ∉ path →
      resolve? root reference = some target →
      Expansion root (reference :: path) target.members L' → Expansion root path ms L →
      Expansion root path (member :: ms) (target :: L' ++ L)
  /-- The member stands for itself. -/
  | inline {path : List String} {member : Schema} {ms L L' : List Schema} :
      member.facets.ref = none → Expansion root path member.members L' →
      Expansion root path ms L → Expansion root path (member :: ms) (member :: L' ++ L)

/-- Which rule applies is decided by the member, so there is one expansion at most. -/
theorem Expansion.unique {root : Json} {path : List String} {ms L L' : List Schema}
    (h : Expansion root path ms L) (h' : Expansion root path ms L') : L = L' := by
  induction h generalizing L' with
  | nil =>
      cases h'
      rfl
  | repeated href hmem _ ih =>
      cases h' with
      | repeated _ _ hrest => exact ih hrest
      | dangling _ _ hrest => exact ih hrest
      | reference href' hfresh _ _ _ =>
          cases href.symm.trans href'
          exact absurd hmem hfresh
      | inline hnone _ _ => cases href.symm.trans hnone
  | dangling href hgone _ ih =>
      cases h' with
      | repeated _ _ hrest => exact ih hrest
      | dangling _ _ hrest => exact ih hrest
      | reference href' _ ht _ _ =>
          cases href.symm.trans href'
          cases hgone.symm.trans ht
      | inline hnone _ _ => cases href.symm.trans hnone
  | reference href hfresh ht _ _ ihTarget ih =>
      cases h' with
      | repeated href' hmem _ =>
          cases href.symm.trans href'
          exact absurd hmem hfresh
      | dangling href' hgone _ =>
          cases href.symm.trans href'
          cases hgone.symm.trans ht
      | reference href' _ ht' htarget hrest =>
          cases href.symm.trans href'
          cases ht.symm.trans ht'
          rw [ihTarget htarget, ih hrest]
      | inline hnone _ _ => cases href.symm.trans hnone
  | inline hnone _ _ ihMember ih =>
      cases h' with
      | repeated href _ _ => cases hnone.symm.trans href
      | dangling href _ _ => cases hnone.symm.trans href
      | reference href _ _ _ _ => cases hnone.symm.trans href
      | inline _ hmember hrest => rw [ihMember hmember, ih hrest]

/-! ## Names that are distinct -/

/-- The properties of a schema itself. -/
def ownProperties (s : Schema) : List (String × Schema) := s.properties.getD []

/-- The names that a schema itself requires. -/
def ownRequired (s : Schema) : List String := s.facets.required.getD []

/-- A schema and all that it is composed of without a reference have each property once. -/
inductive NamesDistinct : Schema → Prop
  | intro {s : Schema} (own : (Ordered.keys s.ownProperties).Nodup)
      (members : ∀ member ∈ s.members, NamesDistinct member) : NamesDistinct s

theorem NamesDistinct.own {s : Schema} : s.NamesDistinct → (Ordered.keys s.ownProperties).Nodup
  | .intro own _ => own

theorem NamesDistinct.of_mem {s member : Schema} :
    s.NamesDistinct → member ∈ s.members → member.NamesDistinct
  | .intro _ members, h => members member h

theorem ownProperties_nodup {ms : List (String × Json)} (h : (Json.object ms).WellFormed) :
    (Ordered.keys (ofMembers ms).ownProperties).Nodup := by
  cases h with
  | object _ hvalues =>
      rw [ofMembers_eq, ownProperties]
      cases hps : Ordered.get? ms "properties" with
      | none => exact List.nodup_nil
      | some v =>
          cases hvalues _ _ (Ordered.mem_of_get? hps) with
          | object hkeys _ =>
              simp only [Option.bind_some, namedSchemas?, Option.getD_some, ofNamed_eq_map]
              rwa [Ordered.keys_mapValues]
          | null | bool _ | number _ | string _ | list _ => exact List.nodup_nil

/-- What is read from a tree with each key once has each property once. -/
theorem namesDistinct_ofJson {v : Json} (h : v.WellFormed) : (ofJson v).NamesDistinct := by
  -- the members are two levels down, below the list under `allOf`
  suffices hboth : (ofJson v).NamesDistinct ∧
      ∀ xs, v = .list xs → ∀ x ∈ xs, (ofJson x).NamesDistinct from hboth.1
  induction h with
  | null | bool _ | number _ | string _ =>
      exact ⟨.intro List.nodup_nil (fun _ hm => absurd hm List.not_mem_nil),
        fun xs he => by cases he⟩
  | list _ ih =>
      refine ⟨.intro List.nodup_nil (fun _ hm => absurd hm List.not_mem_nil), ?_⟩
      intro xs he x hx
      cases he
      exact (ih x hx).1
  | @object ms hkeys hvalues ih =>
      refine ⟨.intro (ownProperties_nodup (.object hkeys hvalues)) ?_, fun xs he => by cases he⟩
      intro member hm
      rw [ofJson, ofMembers_eq, members] at hm
      cases hall : Ordered.get? ms "allOf" with
      | none => simp [hall] at hm
      | some u =>
          cases u with
          | list xs =>
              simp only [hall, Option.bind_some, listed?, Option.getD_some, ofItems_eq_map] at hm
              obtain ⟨x, hx, rfl⟩ := List.mem_map.1 hm
              exact (ih _ _ (Ordered.mem_of_get? hall)).2 xs rfl x hx
          | null | bool _ | number _ | string _ | object _ => simp [hall, listed?] at hm

theorem namesDistinct_of_resolve? {root : Json} {reference : String} {target : Schema}
    (hroot : root.WellFormed) (h : resolve? root reference = some target) :
    target.NamesDistinct := by
  obtain ⟨w, hw, rfl⟩ := Option.map_eq_some_iff.1 h
  exact namesDistinct_ofJson (hroot.of_follow? hw)

/-! ## Merging -/

theorem merge_ownProperties (s member : Schema) :
    (s.merge member).ownProperties = Ordered.putAll s.ownProperties member.ownProperties := by
  show (mergeProperties s.properties member.properties).getD [] = _
  rw [ownProperties, ownProperties]
  cases member.properties <;> rfl

theorem merge_ownRequired (s member : Schema) :
    (s.merge member).ownRequired = s.ownRequired ++ member.ownRequired := by
  show (mergeRequired s.facets.required member.facets.required).getD [] = _
  rw [ownRequired, ownRequired]
  cases member.facets.required with
  | none => exact (List.append_nil _).symm
  | some names => rfl

theorem merge_properties_isSome (s member : Schema) :
    (s.merge member).properties.isSome = (s.properties.isSome || member.properties.isSome) := by
  show (mergeProperties s.properties member.properties).isSome = _
  cases member.properties with
  | none => exact (Bool.or_false _).symm
  | some ps => exact (Bool.or_true _).symm

theorem merge_required_isSome (s member : Schema) :
    (s.merge member).facets.required.isSome =
      (s.facets.required.isSome || member.facets.required.isSome) := by
  show (mergeRequired s.facets.required member.facets.required).isSome = _
  cases member.facets.required with
  | none => exact (Bool.or_false _).symm
  | some names => exact (Bool.or_true _).symm

/-- A member without its own members merges as it does with them. -/
theorem merge_bare (s member : Schema) :
    s.merge { member with allOf := none } = s.merge member := rfl

theorem mergeProperties_assoc (a c : Option (List (String × Schema)))
    {b : Option (List (String × Schema))} (hb : (Ordered.keys (b.getD [])).Nodup) :
    mergeProperties a (mergeProperties b c) = mergeProperties (mergeProperties a b) c := by
  cases c with
  | none => rfl
  | some ps =>
      show some (Ordered.putAll (a.getD []) (Ordered.putAll (b.getD []) ps)) = _
      rw [Ordered.putAll_putAll _ hb]
      cases b <;> rfl

theorem mergeRequired_assoc (a b c : Option (List String)) :
    mergeRequired a (mergeRequired b c) = mergeRequired (mergeRequired a b) c := by
  cases c with
  | none => rfl
  | some names =>
      cases b with
      | none => rfl
      | some names' =>
          show some (a.getD [] ++ (names' ++ names)) = some (a.getD [] ++ names' ++ names)
          rw [List.append_assoc]

/-- **Merging is associative**: a member may be merged into another one first. -/
theorem merge_assoc (a c : Schema) {b : Schema} (hb : (Ordered.keys b.ownProperties).Nodup) :
    a.merge (b.merge c) = (a.merge b).merge c := by
  simp only [merge, mergeProperties_assoc _ _ hb, mergeRequired_assoc, Option.orElse_eq_orElse,
    Option.orElse_eq_or, Option.or_assoc]

theorem merge_foldl (a : Schema) {b : Schema} (hb : (Ordered.keys b.ownProperties).Nodup)
    (L : List Schema) : a.merge (L.foldl merge b) = L.foldl merge (a.merge b) := by
  induction L generalizing b with
  | nil => rfl
  | cons c L ih =>
      have hbc : (Ordered.keys (b.merge c).ownProperties).Nodup := by
        rw [merge_ownProperties]
        exact Ordered.nodup_keys_putAll hb _
      rw [List.foldl_cons, ih hbc, merge_assoc a c hb, List.foldl_cons]

/-! ## Following a run -/

/-- `out` merges into any schema as the schema at hand does, followed by its expansion. -/
def MergesAs (root : Json) (c : Call) (out : Schema) : Prop :=
  ∃ L, Expansion root c.expanding c.schema.members L ∧
    ∀ a : Schema, a.merge out = (c.schema :: L).foldl merge a

/-- The members in turn: when every call's result merges as its expansion, the whole is a fold. -/
theorem expansion_of_foldlM {root : Json} {fuel : Nat} (hroot : root.WellFormed)
    (hcall : ∀ (c : Call) (out : Schema), c.schema.NamesDistinct →
      composeWithin root fuel c.expanding c.schema = some out → MergesAs root c out)
    {path : List String} {ms : List Schema} (hms : ∀ member ∈ ms, member.NamesDistinct)
    {b out : Schema}
    (h : ms.foldlM (fun merged member =>
        match callee? root path member with
        | none => some merged
        | some c => (composeWithin root fuel c.expanding c.schema).map merged.merge) b =
      some out) :
    ∃ L, Expansion root path ms L ∧ out = L.foldl merge b := by
  induction ms generalizing b with
  | nil =>
      cases h
      exact ⟨[], .nil, rfl⟩
  | cons member ms ih =>
      obtain ⟨hmember, hrest⟩ := List.forall_mem_cons.1 hms
      rw [List.foldlM_cons, Option.bind_eq_bind] at h
      obtain ⟨b', hb', h⟩ := Option.bind_eq_some_iff.1 h
      obtain ⟨L, hL, rfl⟩ := ih hrest h
      cases hc : callee? root path member with
      | none =>
          rw [hc] at hb'
          cases hb'
          refine ⟨L, ?_, rfl⟩
          unfold callee? at hc
          cases href : member.facets.ref with
          | none => simp [href] at hc
          | some reference =>
              by_cases hmem : reference ∈ path
              · exact .repeated href hmem hL
              · rw [href] at hc
                simp only [if_neg hmem, Option.map_eq_none_iff] at hc
                exact .dangling href hc hL
      | some c =>
          simp only [hc] at hb'
          obtain ⟨composed, hcomp, rfl⟩ := Option.map_eq_some_iff.1 hb'
          rcases callee?_cases hc with ⟨hnone, rfl⟩ | ⟨reference, target, href, hfresh, ht, rfl⟩
          · obtain ⟨L', hL', hmerge⟩ := hcall ⟨path, member⟩ composed hmember hcomp
            refine ⟨member :: L' ++ L, .inline hnone hL' hL, ?_⟩
            rw [List.foldl_append, hmerge]
          · obtain ⟨L', hL', hmerge⟩ := hcall ⟨reference :: path, target⟩ composed
              (namesDistinct_of_resolve? hroot ht) hcomp
            refine ⟨target :: L' ++ L, .reference href hfresh ht hL' hL, ?_⟩
            rw [List.foldl_append, hmerge]

/-- A composed schema is its expansion, merged into what it is without its members. -/
theorem expansion_of_composed {root : Json} {fuel : Nat} (hroot : root.WellFormed)
    (hcall : ∀ (c : Call) (out : Schema), c.schema.NamesDistinct →
      composeWithin root fuel c.expanding c.schema = some out → MergesAs root c out)
    {path : List String} {s out : Schema} (hs : s.NamesDistinct) (hcomposed : s.isComposed = true)
    (h : composeWithin root (fuel + 1) path s = some out) :
    ∃ L, Expansion root path s.members L ∧ out = L.foldl merge { s with allOf := none } := by
  rw [composeWithin_succ, hcomposed] at h
  exact expansion_of_foldlM hroot hcall (fun _ hm => hs.of_mem hm) h

/-- **What a call gives merges as its expansion**, by induction on the fuel. -/
theorem mergesAs_of_composeWithin {root : Json} (hroot : root.WellFormed) (fuel : Nat) :
    ∀ (c : Call) (out : Schema), c.schema.NamesDistinct →
      composeWithin root fuel c.expanding c.schema = some out → MergesAs root c out := by
  induction fuel with
  | zero =>
      intro c out _ h
      cases h
  | succ fuel ih =>
      intro c out hs h
      cases hcomposed : c.schema.isComposed with
      | false =>
          rw [composeWithin_succ, hcomposed] at h
          cases h
          refine ⟨[], ?_, fun _ => rfl⟩
          rw [isComposed, Bool.not_eq_false', List.isEmpty_iff] at hcomposed
          rw [hcomposed]
          exact .nil
      | true =>
          obtain ⟨L, hL, rfl⟩ := expansion_of_composed hroot ih hs hcomposed h
          refine ⟨L, hL, fun a => ?_⟩
          -- here the nested merges become one fold
          have hbare :
              (Ordered.keys ({ c.schema with allOf := none } : Schema).ownProperties).Nodup :=
            hs.own
          rw [merge_foldl a hbare, merge_bare, List.foldl_cons]

/-! ## What a fold leaves -/

theorem foldl_ownProperties (b : Schema) (L : List Schema) :
    (L.foldl merge b).ownProperties =
      Ordered.putAll b.ownProperties (L.flatMap ownProperties) := by
  induction L generalizing b with
  | nil => rfl
  | cons e L ih =>
      rw [List.foldl_cons, ih, merge_ownProperties, List.flatMap_cons, Ordered.putAll_append]

theorem foldl_ownRequired (b : Schema) (L : List Schema) :
    (L.foldl merge b).ownRequired = (b :: L).flatMap ownRequired := by
  induction L generalizing b with
  | nil => exact (List.append_nil _).symm
  | cons e L ih =>
      rw [List.foldl_cons, ih, List.flatMap_cons, merge_ownRequired, List.flatMap_cons,
        List.flatMap_cons, List.append_assoc]

/-- A mark that merging joins is set when some schema of the list has it. -/
theorem foldl_any (mark : Schema → Bool)
    (hmark : ∀ s member : Schema, mark (s.merge member) = (mark s || mark member)) (b : Schema)
    (L : List Schema) : mark (L.foldl merge b) = (b :: L).any mark := by
  induction L generalizing b with
  | nil => exact (Bool.or_false _).symm
  | cons e L ih =>
      rw [List.foldl_cons, ih, List.any_cons, hmark, List.any_cons, List.any_cons, Bool.or_assoc]

/-- A field of which merging keeps the first is the first that the list has. -/
theorem foldl_findSome? {α : Type} (field : Schema → Option α)
    (hfield : ∀ s member : Schema, field (s.merge member) = (field s <|> field member))
    (b : Schema) (L : List Schema) : field (L.foldl merge b) = (b :: L).findSome? field := by
  induction L generalizing b with
  | nil =>
      rw [List.findSome?_cons]
      cases h : field b <;> exact h
  | cons e L ih =>
      rw [List.foldl_cons, ih, List.findSome?_cons, hfield, List.findSome?_cons,
        List.findSome?_cons]
      cases field b <;> rfl

/-- Everything that merging does not speak of is the first schema's own. -/
theorem foldl_frame (b : Schema) (L : List Schema) :
    L.foldl merge b =
      { b with
        properties := (L.foldl merge b).properties
        facets := { b.facets with
          required := (L.foldl merge b).facets.required
          types := (L.foldl merge b).facets.types
          format := (L.foldl merge b).facets.format
          description := (L.foldl merge b).facets.description } } := by
  induction L generalizing b with
  | nil =>
      obtain ⟨f, _, _, _, _, _⟩ := b
      cases f
      rfl
  | cons e L ih =>
      rw [List.foldl_cons]
      exact ih (b.merge e)

/-! ## The theorem -/

/-- `out` is the list `s :: L` merged from left to right. -/
structure FlatFold (s : Schema) (L : List Schema) (out : Schema) : Prop where
  /-- One merge after another, without any inside another. -/
  fold : out = L.foldl merge { s with allOf := none }
  /-- Properties are there when some schema of the list has them, be it an empty table. -/
  properties_isSome : out.properties.isSome = (s :: L).any (·.properties.isSome)
  /-- A property stands where it occurs first. -/
  properties_keys : Ordered.keys out.ownProperties =
    (((s :: L).flatMap ownProperties).map (·.1)).eraseDups
  /-- A property is what it is where it occurs last. -/
  properties_get : ∀ name, Ordered.get? out.ownProperties name =
    (((s :: L).flatMap ownProperties).findRev? (·.1 = name)).map (·.2)
  required_isSome : out.facets.required.isSome = (s :: L).any (·.facets.required.isSome)
  /-- Required names are strung together, repeated ones and all. -/
  required : out.ownRequired = (s :: L).flatMap ownRequired
  /-- Type, format and description are the first that there are. -/
  types : out.facets.types = (s :: L).findSome? (·.facets.types)
  format : out.facets.format = (s :: L).findSome? (·.facets.format)
  description : out.facets.description = (s :: L).findSome? (·.facets.description)
  /-- There are no members left, and every other keyword is the schema's own. -/
  frame : out =
    { s with
      allOf := none
      properties := out.properties
      facets := { s.facets with
        required := out.facets.required
        types := out.facets.types
        format := out.facets.format
        description := out.facets.description } }

theorem flatFold_foldl {s : Schema} (hs : (Ordered.keys s.ownProperties).Nodup)
    (L : List Schema) : FlatFold s L (L.foldl merge { s with allOf := none }) := by
  have htable : (L.foldl merge { s with allOf := none }).ownProperties =
      Ordered.ofWrites ((s :: L).flatMap ownProperties) := by
    rw [foldl_ownProperties, List.flatMap_cons, ← Ordered.putAll_eq_ofWrites hs]
    rfl
  exact {
    fold := rfl
    properties_isSome := foldl_any (·.properties.isSome) merge_properties_isSome _ L
    properties_keys := by rw [htable, Ordered.keys_ofWrites]
    properties_get := fun name => by rw [htable, Ordered.get?_ofWrites]
    required_isSome := foldl_any (·.facets.required.isSome) merge_required_isSome _ L
    required := foldl_ownRequired _ L
    types := foldl_findSome? (·.facets.types) (fun _ _ => rfl) _ L
    format := foldl_findSome? (·.facets.format) (fun _ _ => rfl) _ L
    description := foldl_findSome? (·.facets.description) (fun _ _ => rfl) _ L
    frame := foldl_frame _ L }

/-- Without members nothing is composed. -/
theorem compose_of_no_members (root : Json) {s : Schema} (h : s.members = []) :
    compose root s = s := by
  rw [compose, isComposed, h]
  rfl

/-- The members of a composed schema have an expansion, which is what is merged into it. -/
theorem exists_expansion_of_members {root : Json} (hroot : root.WellFormed) {s : Schema}
    (hs : s.NamesDistinct) (h : s.members ≠ []) : ∃ L, Expansion root [] s.members L ∧
      compose root s = L.foldl merge { s with allOf := none } := by
  have hcomposed : s.isComposed = true := by
    rw [isComposed, Bool.not_eq_true', List.isEmpty_eq_false_iff]
    exact h
  have hfuel : composeWithin root (compositionBound root s + 1) [] s = some (compose root s) :=
    composeWithin_eq_compose (Nat.le_succ _)
  exact expansion_of_composed hroot (mergesAs_of_composeWithin hroot _) hs hcomposed hfuel

/-- **A composition is its expansion, merged from left to right.**  A schema without members, be
`allOf` absent or empty, is left as it is.  Any other one has an expansion and no second one, and
what composing it gives is the schema and its expansion merged in one flat fold. -/
theorem compose_flatFold {root : Json} (hroot : root.WellFormed) {s : Schema}
    (hs : s.NamesDistinct) :
    (s.members = [] → compose root s = s) ∧
    (s.members ≠ [] → ∃ L, Expansion root [] s.members L ∧
      (∀ L', Expansion root [] s.members L' → L' = L) ∧ FlatFold s L (compose root s)) := by
  refine ⟨compose_of_no_members root, fun h => ?_⟩
  obtain ⟨L, hL, hout⟩ := exists_expansion_of_members hroot hs h
  refine ⟨L, hL, fun L' hL' => hL'.unique hL, ?_⟩
  rw [hout]
  exact flatFold_foldl hs.own L

/-! ### A schema reached twice -/

def refTo (target : String) : Json := .object [("$ref", .string target)]

/-- A schema with a property that it requires. -/
def crossingBase : Json :=
  .object [("properties", .object [("id", .object [])]), ("required", .ofStrings ["id"])]

/-- A schema composed of that one, of itself, and of one that is not there. -/
def crossingLeft : Json :=
  .object [("allOf", .list [refTo "#/Base", refTo "#/Left", refTo "#/Gone"])]

def crossingRoot : Json := .object [("Base", crossingBase), ("Left", crossingLeft)]

/-- A schema that overrides the property. -/
def crossingOwn : Json := .object [("properties", .object [("id", refTo "#/Base")])]

/-- A schema composed of all three. -/
def crossing : Json := .object [("allOf", .list [refTo "#/Left", refTo "#/Base", crossingOwn])]

theorem crossingRoot_wellFormed : crossingRoot.WellFormed := by
  simp [crossingRoot, crossingBase, crossingLeft, refTo, Ordered.keys, Json.ofStrings, or_imp,
    forall_and, Json.WellFormed.string]

theorem crossing_wellFormed : crossing.WellFormed := by
  simp [crossing, crossingOwn, refTo, Ordered.keys, or_imp, forall_and, Json.WellFormed.string]

/-- The first schema is met below the second, which is itself passed over there, and once more. -/
theorem crossing_expansion : Expansion crossingRoot [] (ofJson crossing).members
    [ofJson crossingLeft, ofJson crossingBase, ofJson crossingBase, ofJson crossingOwn] := by
  have hbase : resolve? crossingRoot "#/Base" = some (ofJson crossingBase) := rfl
  have hleft : Expansion crossingRoot ["#/Left"] (ofJson crossingLeft).members
      [ofJson crossingBase] :=
    .reference rfl (by decide) hbase .nil
      (.repeated rfl List.mem_cons_self (.dangling rfl rfl .nil))
  have hown : Expansion crossingRoot [] [ofJson crossingOwn] [ofJson crossingOwn] :=
    @Expansion.inline _ [] (ofJson crossingOwn) [] [] [] rfl .nil .nil
  exact .reference rfl List.not_mem_nil rfl hleft
    (.reference rfl List.not_mem_nil hbase .nil hown)

theorem crossing_flatFold :
    crossingRoot.WellFormed ∧ (ofJson crossing).NamesDistinct ∧
    FlatFold (ofJson crossing)
      [ofJson crossingLeft, ofJson crossingBase, ofJson crossingBase, ofJson crossingOwn]
      (compose crossingRoot (ofJson crossing)) := by
  have hs := namesDistinct_ofJson crossing_wellFormed
  have hmembers : (ofJson crossing).members ≠ [] := List.cons_ne_nil _ _
  obtain ⟨L, -, hunique, hfold⟩ := (compose_flatFold crossingRoot_wellFormed hs).2 hmembers
  rw [hunique _ crossing_expansion]
  exact ⟨crossingRoot_wellFormed, hs, hfold⟩

end EndpointBindings.Schema
