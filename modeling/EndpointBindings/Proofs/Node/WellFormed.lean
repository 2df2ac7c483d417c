import EndpointBindings.Proofs.Composition.Positions
import EndpointBindings.Proofs.Document.Sources
import EndpointBindings.Proofs.Node.Traversal

/-!
# Well-formed nodes

The kinds of nodes leave room for more than a document can say.  Nodes that schemas become keep to
less, at every depth:

| kind | what holds of it |
| :-- | :-- |
| members of `allOf`, members of `oneOf` | there is one at least |
| null beside other types | what is marked has no marks of its own, and the kind of one type |

One level of a node is `Kind.Proper`, and a node is well formed when all its levels are.  Where
schemas are composed first, a node is besides no bare list of members at its top
(`kind_nodeIn_ne_allOf`): nothing that a composition gives has members left
(`members_compose`), on whichever way it came back.  Every node that an API is held with comes from
such a schema, or from none (`gives_of_mem_heldNodes`).
-/

namespace EndpointBindings

/-! ## Levels -/

/-- The kind of one type by itself, which is not null. -/
def Kind.OfOneType : Kind → Prop
  | .string _ | .number _ | .boolean | .array _ | .object _ _ | .any => True
  | .ref _ | .allOf _ | .oneOf _ | .nullable _ | .null => False

/-- What holds of a kind at every depth: members there are, and null is marked on a bare node of one
type. -/
def Kind.Proper : Kind → Prop
  | .allOf members | .oneOf members => members ≠ []
  | .nullable inner =>
      inner.nullable = false ∧ inner.description = none ∧ inner.kind.OfOneType
  | _ => True

/-- Every kind that stands in the node is proper. -/
def Node.WellFormed (n : Node) : Prop := ∀ d m, n.Below d m → m.kind.Proper

/-- The kind is proper, and so is every kind that stands below it. -/
structure Kind.WellFormed (k : Kind) : Prop where
  proper : k.Proper
  children : ∀ child ∈ k.children, child.WellFormed

theorem Node.wellFormed_iff {n : Node} : n.WellFormed ↔ n.kind.WellFormed := by
  constructor
  · intro h
    exact ⟨h 0 n (.here n), fun child hchild d m hm => h (d + 1) m (.down hchild hm)⟩
  · rintro ⟨hproper, hchildren⟩ d m hm
    cases hm with
    | here => exact hproper
    | down hchild hm => exact hchildren _ hchild _ _ hm

theorem Kind.OfOneType.proper {k : Kind} (h : k.OfOneType) : k.Proper := by
  cases k <;> first | exact trivial | exact absurd h id

theorem Kind.OfOneType.ne_allOf {k : Kind} (h : k.OfOneType) (members : List Node) :
    k ≠ .allOf members := by
  rintro rfl
  exact h

/-! ## What types become -/

section types

variable {f : Facets} {items : Option Node} {properties : List (String × Node)}

/-- The kind of a type is that of one type, unless the type is null. -/
theorem ofOneType_kindOfType {name : String} (h : name ≠ "null") :
    (kindOfType f items properties name).OfOneType := by
  unfold kindOfType
  split <;> first | exact trivial | exact absurd rfl h

/-- Below the kind of a type stand the items and the properties. -/
theorem mem_children_kindOfType {name : String} {child : Node}
    (h : child ∈ (kindOfType f items properties name).children) :
    child ∈ items.toList ++ properties.map (·.2) := by
  unfold kindOfType at h
  split at h
  case h_6 =>
    cases items with
    | none => exact absurd h List.not_mem_nil
    | some n => exact List.mem_append_left _ h
  case h_7 => exact List.mem_append_right _ h
  all_goals exact absurd h List.not_mem_nil

/-- The kind of a list of types is null, or that of one type, or such a kind with null beside it. -/
theorem kindOfTypes_cases (f : Facets) (items : Option Node) (properties : List (String × Node))
    (names : List String) :
    kindOfTypes f items properties names = .null ∨
      ∃ k : Kind, k.OfOneType ∧
        (∀ child ∈ k.children, child ∈ items.toList ++ properties.map (·.2)) ∧
        (kindOfTypes f items properties names = k ∨
          kindOfTypes f items properties names = .nullable (.ofKind k)) := by
  have hmarked : ∀ k : Kind,
      (if names.contains "null" then Kind.nullable (.ofKind k) else k) = k ∨
        (if names.contains "null" then Kind.nullable (.ofKind k) else k) =
          .nullable (.ofKind k) := by
    intro k
    split
    · exact .inr rfl
    · exact .inl rfl
  unfold kindOfTypes
  dsimp only
  split
  · split
    · exact .inl rfl
    · exact .inr ⟨.any, trivial, fun _ h => absurd h List.not_mem_nil, .inl rfl⟩
  · next name hnames =>
      -- what is left of the list after null is taken out is not null
      have hname : name ≠ "null" := by
        have hmem : name ∈ names.filter (· ≠ "null") := hnames ▸ List.mem_singleton_self name
        simpa using (List.mem_filter.1 hmem).2
      exact .inr ⟨_, ofOneType_kindOfType hname, fun _ => mem_children_kindOfType, hmarked _⟩
  · exact .inr ⟨.string _, trivial, fun _ h => absurd h List.not_mem_nil, hmarked _⟩

/-- A schema without members becomes no list of members. -/
theorem kindOfParts_ne_allOf (oneOf anyOf members : List Node) :
    kindOfParts f properties items [] oneOf anyOf ≠ .allOf members := by
  have htype : ∀ name, kindOfType f items properties name ≠ .allOf members := by
    intro name
    by_cases hname : name = "null"
    · subst hname
      exact Kind.noConfusion
    · exact (ofOneType_kindOfType hname).ne_allOf members
  unfold kindOfParts
  split
  · exact Kind.noConfusion
  · split
    · next h => cases h
    · exact Kind.noConfusion
    · exact Kind.noConfusion
    · split
      · exact htype _
      · next names _ =>
          rcases kindOfTypes_cases f items properties names with h | ⟨k, hk, -, h | h⟩
          · rw [h]
            exact Kind.noConfusion
          · rw [h]
            exact hk.ne_allOf members
          · rw [h]
            exact Kind.noConfusion
      · split <;> exact Kind.noConfusion

/-! ## What parts become -/

variable (hparts : ∀ child ∈ items.toList ++ properties.map (·.2), child.WellFormed)

include hparts

theorem wellFormed_kindOfType (name : String) :
    (kindOfType f items properties name).WellFormed where
  proper := by
    by_cases hname : name = "null"
    · subst hname
      exact trivial
    · exact (ofOneType_kindOfType hname).proper
  children child hchild := hparts child (mem_children_kindOfType hchild)

theorem wellFormed_kindOfTypes (names : List String) :
    (kindOfTypes f items properties names).WellFormed := by
  rcases kindOfTypes_cases f items properties names with h | ⟨k, htype, hchildren, h⟩
  · rw [h]
    exact ⟨trivial, fun child hchild => absurd hchild List.not_mem_nil⟩
  · have hk : k.WellFormed :=
      ⟨htype.proper, fun child hchild => hparts child (hchildren child hchild)⟩
    rcases h with h | h
    · rwa [h]
    · rw [h]
      refine ⟨⟨rfl, rfl, htype⟩, fun child hchild => ?_⟩
      rw [List.mem_singleton.1 hchild]
      exact Node.wellFormed_iff.2 hk

theorem wellFormed_kindOfParts {allOf oneOf anyOf : List Node}
    (hallOf : ∀ n ∈ allOf, n.WellFormed) (honeOf : ∀ n ∈ oneOf, n.WellFormed)
    (hanyOf : ∀ n ∈ anyOf, n.WellFormed) :
    (kindOfParts f properties items allOf oneOf anyOf).WellFormed := by
  unfold kindOfParts
  split
  · exact ⟨trivial, fun child hchild => absurd hchild List.not_mem_nil⟩
  · split
    · exact ⟨List.cons_ne_nil _ _, hallOf⟩
    · exact ⟨List.cons_ne_nil _ _, honeOf⟩
    · exact ⟨List.cons_ne_nil _ _, hanyOf⟩
    · split
      · exact wellFormed_kindOfType hparts _
      · exact wellFormed_kindOfTypes hparts _
      · split
        · exact ⟨trivial, fun child hchild => absurd hchild List.not_mem_nil⟩
        · exact ⟨trivial, fun child hchild => hparts child (List.mem_append_right _ hchild)⟩

end types

/-! ## What schemas become -/

namespace Schema

mutual

/-- **The node of a schema is well formed.** -/
theorem wellFormed_toNode : ∀ s : Schema, s.toNode.WellFormed
  | ⟨f, properties, items, allOf, oneOf, anyOf⟩ => by
      rw [Node.wellFormed_iff, toNode]
      refine wellFormed_kindOfParts (List.forall_mem_append.2 ⟨?_, ?_⟩)
        (wellFormed_optionalNodes allOf) (wellFormed_optionalNodes oneOf)
        (wellFormed_optionalNodes anyOf)
      · exact wellFormed_optionalNode items
      · exact wellFormed_optionalNamedNodes properties

theorem wellFormed_optionalNode : ∀ s : Option Schema, ∀ n ∈ (optionalNode s).toList, n.WellFormed
  | none => fun _ hn => absurd hn List.not_mem_nil
  | some s => by
      rw [optionalNode, Option.toList_some, List.forall_mem_singleton]
      exact wellFormed_toNode s

theorem wellFormed_optionalNodes : ∀ ss : Option (List Schema), ∀ n ∈ optionalNodes ss, n.WellFormed
  | none => fun _ hn => absurd hn List.not_mem_nil
  | some ss => wellFormed_nodesOf ss

theorem wellFormed_optionalNamedNodes : ∀ ps : Option (List (String × Schema)),
    ∀ n ∈ (optionalNamedNodes ps).map (·.2), n.WellFormed
  | none => fun _ hn => absurd hn List.not_mem_nil
  | some ps => wellFormed_namedNodes ps

theorem wellFormed_nodesOf : ∀ ss : List Schema, ∀ n ∈ nodesOf ss, n.WellFormed
  | [] => fun _ hn => absurd hn List.not_mem_nil
  | s :: ss => List.forall_mem_cons.2 ⟨wellFormed_toNode s, wellFormed_nodesOf ss⟩

theorem wellFormed_namedNodes : ∀ ps : List (String × Schema),
    ∀ n ∈ (namedNodes ps).map (·.2), n.WellFormed
  | [] => fun _ hn => absurd hn List.not_mem_nil
  | (_, s) :: ps => List.forall_mem_cons.2 ⟨wellFormed_toNode s, wellFormed_namedNodes ps⟩

end

/-- Steps that leave something alone leave it alone together. -/
theorem foldlM_keeps {α β γ : Type} {step : β → α → Option β} (kept : β → γ)
    (hstep : ∀ b a b', step b a = some b' → kept b' = kept b) {as : List α} {b b' : β}
    (h : as.foldlM step b = some b') : kept b' = kept b := by
  induction as generalizing b with
  | nil =>
      cases h
      rfl
  | cons a as ih =>
      rw [List.foldlM_cons, Option.bind_eq_bind] at h
      obtain ⟨c, hc, hrest⟩ := Option.bind_eq_some_iff.1 h
      rw [ih hrest, hstep b a c hc]

/-- **A composition leaves no members**, whether there were none or all are merged or passed over. -/
theorem members_compose (root : Json) (s : Schema) : (s.compose root).members = [] := by
  have hfuel : compositionBound root s ≤ compositionBound root s + 1 := Nat.le_succ _
  have hcompose := composeWithin_eq_compose hfuel
  rw [composeWithin_succ] at hcompose
  split at hcompose
  · next hplain =>
      rw [← Option.some.inj hcompose]
      simpa [isComposed] using hplain
  · have hallOf := foldlM_keeps Schema.allOf ?_ hcompose
    · rw [members, hallOf]
      rfl
    · intro b member b' hstep
      split at hstep
      · cases hstep
        rfl
      · obtain ⟨composed, -, rfl⟩ := Option.map_eq_some_iff.1 hstep
        rfl

end Schema

/-- **Where schemas are composed first, no node is a bare list of members.** -/
theorem kind_nodeIn_ne_allOf (doc : Document) (s : Schema) (members : List Node) :
    (nodeIn doc s).kind ≠ .allOf members := by
  rw [nodeIn, toNode_kind, Schema.members_compose, List.map_nil]
  exact kindOfParts_ne_allOf _ _ _

/-! ## Nodes of an API -/

/-- The nodes that an endpoint is held with. -/
def Endpoint.heldNodes (e : Endpoint) : List Node :=
  e.response.toList ++ e.body.toList ++ (e.query ++ e.pathParams).map (·.node)

/-- The nodes of all components and of all endpoints. -/
def Api.heldNodes (api : Api) : List Node :=
  api.schemas.map (·.2) ++ api.routes.flatMap fun route => route.2.flatMap (·.2.heldNodes)

/-- A node that comes from a schema of the document, or from none. -/
def Document.Gives (doc : Document) (n : Node) : Prop := n = .any ∨ ∃ s, n = nodeIn doc s

theorem Document.Gives.wellFormed {doc : Document} {n : Node} (h : doc.Gives n) :
    n.WellFormed := by
  rcases h with rfl | ⟨s, rfl⟩
  · exact Node.wellFormed_iff.2 ⟨trivial, fun child hchild => absurd hchild List.not_mem_nil⟩
  · exact Schema.wellFormed_toNode _

theorem Document.Gives.kind_ne_allOf {doc : Document} {n : Node} (h : doc.Gives n)
    (members : List Node) : n.kind ≠ .allOf members := by
  rcases h with rfl | ⟨s, rfl⟩
  · exact Kind.noConfusion
  · exact kind_nodeIn_ne_allOf doc s members

section

variable {doc : Document}

theorem gives_of_mem_contentNode {content : Option (RefOr Content)} {n : Node}
    (h : n ∈ (contentNode doc content).toList) : doc.Gives n := by
  obtain ⟨s, -, rfl⟩ := Option.map_eq_some_iff.1 (Option.mem_toList.1 h)
  exact .inr ⟨s, rfl⟩

theorem gives_of_mem_parametersAt {location : String} {ps : List Parameter} {p : NamedNode}
    (h : p ∈ parametersAt doc location ps) : doc.Gives p.node := by
  obtain ⟨q, -, rfl⟩ := List.mem_map.1 h
  rw [namedNodeIn]
  cases q.schema with
  | none => exact .inl rfl
  | some s => exact .inr ⟨s, rfl⟩

theorem gives_of_mem_endpointOf {verb : Verb} {shared : List Json} {op : Operation} {n : Node}
    (h : n ∈ (endpointOf doc verb shared op).heldNodes) : doc.Gives n := by
  rcases List.mem_append.1 h with h | h
  · rcases List.mem_append.1 h with h | h
    · exact gives_of_mem_contentNode h
    · exact gives_of_mem_contentNode h
  · obtain ⟨p, hp, rfl⟩ := List.mem_map.1 h
    rcases List.mem_append.1 hp with hp | hp
    · exact gives_of_mem_parametersAt hp
    · exact gives_of_mem_parametersAt hp

theorem gives_of_mem_schemas {n : Node} (h : n ∈ doc.api.schemas.map (·.2)) : doc.Gives n := by
  obtain ⟨⟨name, _⟩, hmem, rfl⟩ := List.mem_map.1 h
  obtain ⟨⟨_, s⟩, -, he⟩ := List.mem_map.1 hmem
  cases he
  exact .inr ⟨s, rfl⟩

/-- Every node of an API comes from a schema, or from none. -/
theorem gives_of_mem_heldNodes {n : Node} (h : n ∈ doc.api.heldNodes) : doc.Gives n := by
  rcases List.mem_append.1 h with h | h
  · exact gives_of_mem_schemas h
  · obtain ⟨route, hroute, h⟩ := List.mem_flatMap.1 h
    obtain ⟨path, item, -, rfl⟩ := exists_of_mem_routes hroute
    obtain ⟨⟨verb, e⟩, he, h⟩ := List.mem_flatMap.1 h
    obtain ⟨key, v, op, -, -, -, rfl⟩ := exists_of_mem_endpointsOf he
    exact gives_of_mem_endpointOf h

end

end EndpointBindings
