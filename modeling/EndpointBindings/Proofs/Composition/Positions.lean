import EndpointBindings.Proofs.Composition.Expansion
import EndpointBindings.Proofs.References.Components

/-!
# A composed schema in two positions

Where an endpoint begins, a schema is composed before it becomes a node, and its own properties
stand beside those of its members.  Inside another schema it becomes a node as it is.  There its
members decide its kind, and a kind of members has no place for properties: what the schema itself
says beside them is left out.

| | |
| :-- | :-- |
| `Schema.PlainObject` | a schema that says which properties an object has |
| `Document.ComposedObject` | a schema composed of such ones, found inline or among the components |
| `Node.propertyNames` | the properties of an object |
| `Node.Mentions` | the properties that a node speaks of, in members and in components too |

For a schema that is composed of plain objects, the object that it is composed into has the
properties that its node mentions, and those that the schema itself declares (`composed_mentions`).
The two positions agree exactly when the members repeat the schema's own properties.
-/

namespace EndpointBindings

open Ordered (keys)

/-! ## Schemas of objects -/

/-- The types of a schema that describes an object, or says nothing about it. -/
def Schema.ObjectTypes (s : Schema) : Prop :=
  s.facets.types = none ∨ s.facets.types = some (.single "object")

/-- A schema that describes an object by its properties alone. -/
structure Schema.PlainObject (s : Schema) : Prop where
  ref : s.facets.ref = none
  members : s.members = []
  oneOf : s.oneOf.getD [] = []
  anyOf : s.anyOf.getD [] = []
  types : s.ObjectTypes

/-- A member stands for a plain object: it is one, or it is a reference to a component that is. -/
inductive Document.StandsFor (doc : Document) : (member target : Schema) → Prop
  | inline {member : Schema} : member.PlainObject → StandsFor doc member member
  | reference {member target : Schema} {reference name : String} :
      member.facets.ref = some reference → doc.LeadsTo reference name target →
      target.PlainObject → StandsFor doc member target

/-- A schema that is composed of plain objects. -/
structure Document.ComposedObject (doc : Document) (s : Schema) : Prop where
  composed : s.members ≠ []
  ref : s.facets.ref = none
  oneOf : s.oneOf.getD [] = []
  anyOf : s.anyOf.getD [] = []
  types : s.ObjectTypes
  members : ∀ member ∈ s.members, ∃ target, doc.StandsFor member target

/-! ## Properties of nodes -/

/-- The names of an object's properties; none when the node is of another kind. -/
def Node.propertyNames (n : Node) : List String :=
  match n.kind with
  | .object properties _ => keys properties
  | _ => []

/-- The node speaks of a property: as an object, in a member, or in the component that it refers
to. -/
inductive Node.Mentions (doc : Document) (property : String) : Node → Prop
  | here {n : Node} : property ∈ n.propertyNames → Mentions doc property n
  | member {n m : Node} {members : List Node} :
      n.kind = .allOf members → m ∈ members → Mentions doc property m → Mentions doc property n
  | reference {n : Node} {reference name : String} {component : Schema} :
      n.kind = .ref reference → doc.LeadsTo reference name component →
      Mentions doc property (nodeIn doc component) → Mentions doc property n

theorem nodesOf_eq_map (ss : List Schema) : Schema.nodesOf ss = ss.map Schema.toNode := by
  induction ss with
  | nil => rw [Schema.nodesOf, List.map_nil]
  | cons s ss ih => rw [Schema.nodesOf, ih, List.map_cons]

theorem keys_namedNodes (ps : List (String × Schema)) : keys (Schema.namedNodes ps) = keys ps := by
  induction ps with
  | nil => rw [Schema.namedNodes]; rfl
  | cons p ps ih =>
      obtain ⟨name, s⟩ := p
      rw [Schema.namedNodes]
      exact congrArg (name :: ·) ih

theorem keys_optionalNamedNodes (ps : Option (List (String × Schema))) :
    keys (Schema.optionalNamedNodes ps) = keys (ps.getD []) := by
  cases ps with
  | none => rw [Schema.optionalNamedNodes]; rfl
  | some ps => rw [Schema.optionalNamedNodes, keys_namedNodes]; rfl

theorem toNode_kind (s : Schema) :
    s.toNode.kind = kindOfParts s.facets (Schema.optionalNamedNodes s.properties)
      (Schema.optionalNode s.items) (s.members.map Schema.toNode)
      ((s.oneOf.getD []).map Schema.toNode) ((s.anyOf.getD []).map Schema.toNode) := by
  have hnodes : ∀ ss : Option (List Schema),
      Schema.optionalNodes ss = (ss.getD []).map Schema.toNode := by
    intro ss
    cases ss with
    | none => rw [Schema.optionalNodes]; rfl
    | some ss => rw [Schema.optionalNodes, nodesOf_eq_map]; rfl
  obtain ⟨f, properties, items, allOf, oneOf, anyOf⟩ := s
  rw [Schema.toNode]
  simp only [hnodes]
  rfl

/-- A plain object is an object of its own properties, unless it says nothing at all. -/
theorem Schema.PlainObject.kind {s : Schema} (h : s.PlainObject) :
    (s.toNode.kind = .any ∧ keys s.ownProperties = []) ∨
      ∃ properties required, s.toNode.kind = .object properties required ∧
        keys properties = keys s.ownProperties := by
  have hkeys := keys_optionalNamedNodes s.properties
  rw [toNode_kind, h.members, h.oneOf, h.anyOf, List.map_nil, Schema.ownProperties, ← hkeys]
  rcases h.types with htypes | htypes
  · simp only [kindOfParts, h.ref, htypes]
    cases Schema.optionalNamedNodes s.properties with
    | nil => exact .inl ⟨rfl, rfl⟩
    | cons p ps => exact .inr ⟨_, _, rfl, rfl⟩
  · simp only [kindOfParts, h.ref, htypes]
    exact .inr ⟨_, _, rfl, rfl⟩

theorem Schema.PlainObject.propertyNames {s : Schema} (h : s.PlainObject) :
    s.toNode.propertyNames = keys s.ownProperties := by
  rw [Node.propertyNames]
  obtain ⟨hkind, hown⟩ | ⟨properties, required, hkind, hkeys⟩ := h.kind
  · rw [hkind, hown]
  · rw [hkind]
    exact hkeys

/-! ## What a plain object mentions -/

theorem Document.LeadsTo.unique {doc : Document} {reference name name' : String} {c c' : Schema}
    (h : doc.LeadsTo reference name c) (h' : doc.LeadsTo reference name' c') : c = c' :=
  Option.some.inj (h.resolved.symm.trans h'.resolved)

/-- Composing a schema without members leaves it as it is. -/
theorem Schema.composeWithin_of_plain {s : Schema} (h : s.members = []) (root : Json) (fuel : Nat)
    (expanding : List String) : composeWithin root (fuel + 1) expanding s = some s := by
  rw [composeWithin_succ, isComposed, h]
  rfl

/-- A schema that is not composed has the same node everywhere. -/
theorem nodeIn_of_plain {doc : Document} {s : Schema} (h : s.members = []) :
    nodeIn doc s = s.toNode := by
  rw [nodeIn, Schema.compose, if_neg]
  simp [Schema.isComposed, h]

/-- Plain objects mention their own properties and no others. -/
theorem Schema.PlainObject.mentions_iff {doc : Document} {s : Schema} (h : s.PlainObject)
    {property : String} : s.toNode.Mentions doc property ↔ property ∈ keys s.ownProperties := by
  rw [← h.propertyNames]
  constructor
  · intro hm
    -- the kind of a plain object has neither members nor a target
    cases hm with
    | here hp => exact hp
    | member hkind _ _ | reference hkind _ _ =>
        obtain ⟨hany, -⟩ | ⟨properties, required, hobject, -⟩ := h.kind
        · cases hkind.symm.trans hany
        · cases hkind.symm.trans hobject
  · exact .here

/-- A member mentions the properties of the plain object that it stands for. -/
theorem Document.StandsFor.mentions_iff {doc : Document} {member target : Schema}
    (h : doc.StandsFor member target) {property : String} :
    member.toNode.Mentions doc property ↔ property ∈ keys target.ownProperties := by
  cases h with
  | inline hplain => exact hplain.mentions_iff
  | @reference _ reference name href hleads hplain =>
      have hkind : member.toNode.kind = .ref reference := by
        rw [toNode_kind]
        unfold kindOfParts
        rw [href]
      have hcomponent : (nodeIn doc target).Mentions doc property ↔
          property ∈ keys target.ownProperties := by
        rw [nodeIn_of_plain hplain.members]
        exact hplain.mentions_iff
      rw [← hcomponent]
      constructor
      · intro hm
        cases hm with
        | here hp =>
            rw [Node.propertyNames, hkind] at hp
            exact absurd hp List.not_mem_nil
        | member hkind' _ _ => cases hkind.symm.trans hkind'
        | reference hkind' hleads' hmentions =>
            cases hkind.symm.trans hkind'
            rwa [hleads.unique hleads']
      · exact .reference hkind hleads

/-! ## The composed object -/

/-- What a member stands for. -/
def Document.target (doc : Document) (member : Schema) : Schema :=
  match member.facets.ref with
  | some reference => (Schema.resolve? doc.raw reference).getD member
  | none => member

theorem Document.StandsFor.target_eq {doc : Document} {member target : Schema}
    (h : doc.StandsFor member target) : doc.target member = target := by
  cases h with
  | inline hplain => rw [Document.target, hplain.ref]
  | reference href hleads _ =>
      simp only [Document.target, href, hleads.resolved, Option.getD_some]

theorem Document.StandsFor.plain {doc : Document} {member target : Schema}
    (h : doc.StandsFor member target) : target.PlainObject := by
  cases h with
  | inline hplain => exact hplain
  | reference _ _ hplain => exact hplain

/-- Composing a member gives what it stands for. -/
theorem Document.StandsFor.composes {doc : Document} {member target : Schema}
    (h : doc.StandsFor member target) : ∃ expanding,
      Schema.callee? doc.raw [] member = some ⟨expanding, target⟩ ∧
        ∀ fuel, Schema.composeWithin doc.raw (fuel + 1) expanding target = some target := by
  have hplain : ∀ fuel expanding,
      Schema.composeWithin doc.raw (fuel + 1) expanding target = some target :=
    Schema.composeWithin_of_plain h.plain.members doc.raw
  cases h with
  | inline hinline =>
      exact ⟨[], by rw [Schema.callee?, hinline.ref], fun fuel => hplain fuel _⟩
  | @reference _ reference _ href hleads _ =>
      refine ⟨[reference], ?_, fun fuel => hplain fuel _⟩
      rw [Schema.callee?, href]
      simp [hleads.resolved]

theorem foldlM_merge {doc : Document} {fuel : Nat} {ms : List Schema}
    (hms : ∀ member ∈ ms, ∃ target, doc.StandsFor member target) (b : Schema) :
    ms.foldlM (fun merged member =>
        match Schema.callee? doc.raw [] member with
        | none => some merged
        | some c =>
          (Schema.composeWithin doc.raw (fuel + 1) c.expanding c.schema).map merged.merge) b =
      some ((ms.map doc.target).foldl Schema.merge b) := by
  induction ms generalizing b with
  | nil => rfl
  | cons member ms ih =>
      obtain ⟨target, htarget⟩ := hms member List.mem_cons_self
      obtain ⟨expanding, hcallee, hcomposes⟩ := htarget.composes
      rw [List.foldlM_cons, hcallee]
      simp only [hcomposes, Option.map_some]
      rw [List.map_cons, List.foldl_cons, htarget.target_eq]
      exact ih (fun m hm => hms m (List.mem_cons_of_mem _ hm)) _

/-- A schema is composed of what its members stand for, merged from left to right. -/
theorem Document.ComposedObject.compose_eq {doc : Document} {s : Schema}
    (h : doc.ComposedObject s) :
    s.compose doc.raw =
      (s.members.map doc.target).foldl Schema.merge { s with allOf := none } := by
  have hfuel : Schema.compositionBound doc.raw s ≤ Schema.compositionBound doc.raw s + 2 :=
    Nat.le_add_right _ 2
  have hcompose := Schema.composeWithin_eq_compose hfuel
  rw [Schema.composeWithin_succ, if_neg] at hcompose
  · exact Option.some.inj (hcompose.symm.trans (foldlM_merge h.members _))
  · simp [Schema.isComposed, h.composed]

theorem Schema.foldl_objectTypes {b : Schema} {L : List Schema} (hb : b.ObjectTypes)
    (hL : ∀ t ∈ L, t.ObjectTypes) : (L.foldl Schema.merge b).ObjectTypes := by
  rw [Schema.ObjectTypes, Schema.foldl_findSome? (·.facets.types) (fun _ _ => rfl)]
  cases hfirst : (b :: L).findSome? (·.facets.types) with
  | none => exact .inl rfl
  | some types =>
      obtain ⟨t, ht, htypes⟩ := List.exists_of_findSome?_eq_some hfirst
      have hobject : t.ObjectTypes := by
        rcases List.mem_cons.1 ht with rfl | ht
        · exact hb
        · exact hL t ht
      exact htypes ▸ hobject

/-- What is composed is a plain object again. -/
theorem Document.ComposedObject.plain {doc : Document} {s : Schema} (h : doc.ComposedObject s) :
    (s.compose doc.raw).PlainObject := by
  have htypes : (s.compose doc.raw).ObjectTypes := by
    rw [h.compose_eq]
    refine Schema.foldl_objectTypes h.types fun t ht => ?_
    obtain ⟨member, hmember, rfl⟩ := List.mem_map.1 ht
    obtain ⟨target, htarget⟩ := h.members member hmember
    rw [htarget.target_eq]
    exact htarget.plain.types
  have hframe := Schema.foldl_frame { s with allOf := none } (s.members.map doc.target)
  rw [← h.compose_eq] at hframe
  refine ⟨?_, ?_, ?_, ?_, htypes⟩
  · rw [hframe]
    exact h.ref
  · rw [hframe]
    rfl
  · rw [hframe]
    exact h.oneOf
  · rw [hframe]
    exact h.anyOf

theorem Document.ComposedObject.mem_ownProperties {doc : Document} {s : Schema}
    (h : doc.ComposedObject s) {property : String} :
    property ∈ keys (s.compose doc.raw).ownProperties ↔
      property ∈ keys s.ownProperties ∨
        ∃ member ∈ s.members, property ∈ keys (doc.target member).ownProperties := by
  rw [h.compose_eq, Schema.foldl_ownProperties, Ordered.mem_keys_putAll_iff]
  refine or_congr Iff.rfl ?_
  simp only [keys, List.mem_map, List.mem_flatMap]
  constructor
  · rintro ⟨entry, ⟨t, ⟨member, hmember, rfl⟩, hentry⟩, rfl⟩
    exact ⟨member, hmember, entry, hentry, rfl⟩
  · rintro ⟨member, hmember, entry, hentry, rfl⟩
    exact ⟨entry, ⟨_, ⟨member, hmember, rfl⟩, hentry⟩, rfl⟩

/-- The node of a composed schema mentions what its members mention. -/
theorem Document.ComposedObject.mentions_iff {doc : Document} {s : Schema}
    (h : doc.ComposedObject s) {property : String} :
    s.toNode.Mentions doc property ↔
      ∃ member ∈ s.members, member.toNode.Mentions doc property := by
  have hkind : s.toNode.kind = .allOf (s.members.map Schema.toNode) := by
    rw [toNode_kind]
    unfold kindOfParts
    rw [h.ref]
    cases hmembers : s.members with
    | nil => exact absurd hmembers h.composed
    | cons member ms => rfl
  constructor
  · intro hm
    cases hm with
    | here hp =>
        rw [Node.propertyNames, hkind] at hp
        exact absurd hp List.not_mem_nil
    | member hkind' hmember hmentions =>
        cases hkind.symm.trans hkind'
        obtain ⟨member, hmem, rfl⟩ := List.mem_map.1 hmember
        exact ⟨member, hmem, hmentions⟩
    | reference hkind' _ _ => cases hkind.symm.trans hkind'
  · rintro ⟨member, hmem, hmentions⟩
    exact .member hkind (List.mem_map_of_mem hmem) hmentions

/-! ## The theorem -/

/-- **A composed schema in two positions.**  Composed, it is an object of the properties that its
node mentions and of those that it declares itself.  So nothing is missing from its node exactly
when its members speak of every property that it declares beside them. -/
theorem composed_mentions {doc : Document} {s : Schema} (h : doc.ComposedObject s) :
    (∀ property, property ∈ (nodeIn doc s).propertyNames ↔
      property ∈ keys s.ownProperties ∨ s.toNode.Mentions doc property) ∧
    ((∀ property, property ∈ (nodeIn doc s).propertyNames ↔ s.toNode.Mentions doc property) ↔
      ∀ property ∈ keys s.ownProperties, ∃ member ∈ s.members,
        member.toNode.Mentions doc property) := by
  have hnames : ∀ property, property ∈ (nodeIn doc s).propertyNames ↔
      property ∈ keys s.ownProperties ∨ s.toNode.Mentions doc property := by
    intro property
    rw [nodeIn, h.plain.propertyNames, h.mem_ownProperties, h.mentions_iff]
    refine or_congr Iff.rfl (exists_congr fun member => and_congr_right fun hmember => ?_)
    obtain ⟨target, htarget⟩ := h.members member hmember
    rw [htarget.target_eq, htarget.mentions_iff]
  refine ⟨hnames, ?_⟩
  constructor
  · intro hagree property hown
    exact h.mentions_iff.1 ((hagree property).1 ((hnames property).2 (.inl hown)))
  · intro hrepeated property
    rw [hnames, or_iff_right_of_imp]
    intro hown
    exact h.mentions_iff.2 (hrepeated property hown)

/-! ### A draft -/

/-- An entry has an `id`. -/
def entrySchema : Schema := { properties := some [("id", {})] }

def entryRef : Schema := { facets := { ref := some "#/components/schemas/Entry" } }

def titled : Schema := { properties := some [("title", {})] }

/-- A draft is a titled entry with a `note` of its own. -/
def draft : Schema := { properties := some [("note", {})], allOf := some [entryRef, titled] }

/-- The components of a document that declares entries. -/
def entryComponents : List (String × Json) :=
  [("components", .object [("schemas", .object [
    ("Entry", .object [("properties", .object [("id", .object [])])])])])]

def entryDocument : Document where
  raw := .object entryComponents
  spec := Spec.ofRecord entryComponents

theorem entryRef_standsFor : entryDocument.StandsFor entryRef entrySchema := by
  have hleads : entryDocument.LeadsTo "#/components/schemas/Entry" "Entry" entrySchema :=
    ⟨by decide, rfl, rfl⟩
  exact .reference rfl hleads ⟨rfl, rfl, rfl, rfl, .inl rfl⟩

theorem titled_standsFor : entryDocument.StandsFor titled titled :=
  .inline ⟨rfl, rfl, rfl, rfl, .inl rfl⟩

theorem draft_composed : entryDocument.ComposedObject draft where
  composed := by simp [draft, Schema.members]
  ref := rfl
  oneOf := rfl
  anyOf := rfl
  types := .inl rfl
  members := by
    intro member hmember
    rcases List.mem_cons.1 hmember with rfl | hmember
    · exact ⟨_, entryRef_standsFor⟩
    · cases List.mem_singleton.1 hmember
      exact ⟨_, titled_standsFor⟩

theorem draft_mentions :
    entryDocument.ComposedObject draft ∧ draft.toNode.Mentions entryDocument "id" ∧
    "id" ∈ (nodeIn entryDocument draft).propertyNames := by
  have hmentions : draft.toNode.Mentions entryDocument "id" :=
    draft_composed.mentions_iff.2 ⟨entryRef, List.mem_cons_self,
      entryRef_standsFor.mentions_iff.2 List.mem_cons_self⟩
  exact ⟨draft_composed, hmentions, ((composed_mentions draft_composed).1 "id").2 (.inr hmentions)⟩

/-- The note of a draft is in the composed object, and its node does not speak of it. -/
theorem draft_note_lost :
    entryDocument.ComposedObject draft ∧ "note" ∈ (nodeIn entryDocument draft).propertyNames ∧
    ¬ draft.toNode.Mentions entryDocument "note" := by
  refine ⟨draft_composed, ?_, ?_⟩
  · rw [nodeIn, draft_composed.plain.propertyNames, draft_composed.mem_ownProperties]
    exact .inl List.mem_cons_self
  · rw [draft_composed.mentions_iff]
    rintro ⟨member, hmember, hmentions⟩
    rcases List.mem_cons.1 hmember with rfl | hmember
    · exact absurd (entryRef_standsFor.mentions_iff.1 hmentions) (by decide)
    · cases List.mem_singleton.1 hmember
      exact absurd (titled_standsFor.mentions_iff.1 hmentions) (by decide)

end EndpointBindings
