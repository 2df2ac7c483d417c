import EndpointBindings.Node.Validator
import EndpointBindings.Proofs.Node.WellFormed

/-!
# Where there are no members

Members are combined from the left, and where there are none the emitter falls back on accepting any
value.  `Node.emitOr` is the emitter with another text in that place; with the emitter's own text it
is the emitter (`Node.emitOr_eq`).  No node of an API that a document describes is emitted
differently by it, whatever the other text is: the fallback is never reached.

This rests on the nodes being well formed, which holds wherever they come from schemas.
-/

namespace EndpointBindings

open TypeScript

/-! ## Another text for no members -/

/-- Combine expressions from the left; without any, the given text. -/
def combineOr (fallback : String) (f : String → String → String) : List String → String
  | [] => fallback
  | e :: es => es.foldl f e

mutual

/-- The validator of a node, with the given text wherever members are combined that there are none
of. -/
def Node.emitOr (fallback : String) (known : List String) (depth : Nat) (required : Bool) :
    Node → String
  | ⟨kind, nullable, description⟩ =>
    (if maxEmitDepth < depth then unknown else kind.emitOr fallback known depth)
      ++ (if nullable then ".nullable()" else "")
      ++ callWith "describe" literal description
      ++ (if required then "" else ".optional()")

def Kind.emitOr (fallback : String) (known : List String) (depth : Nat) : Kind → String
  | .ref target => emitRef known target
  | .allOf members =>
    combineOr fallback intersection (emitMembersOr fallback known (depth + 1) members)
  | .oneOf members => combineOr fallback union (emitMembersOr fallback known (depth + 1) members)
  | .nullable inner => inner.emitOr fallback known (depth + 1) true ++ ".nullable()"
  | .string rules => rules.emit
  | .number rules => rules.emit
  | .boolean => "z.boolean()"
  | .null => "z.null()"
  | .array none => "z.array(z.unknown())"
  | .array (some items) => "z.array(" ++ items.emitOr fallback known (depth + 1) true ++ ")"
  | .object properties required =>
    emitFields (emitPropertiesOr fallback known (depth + 1) required properties)
  | .any => unknown

def emitMembersOr (fallback : String) (known : List String) (depth : Nat) :
    List Node → List String
  | [] => []
  | n :: ns => n.emitOr fallback known depth true :: emitMembersOr fallback known depth ns

def emitPropertiesOr (fallback : String) (known : List String) (depth : Nat)
    (required : List String) : List (String × Node) → List Step
  | [] => []
  | (name, n) :: ps =>
    .line (propertyKey name ++ ": " ++ n.emitOr fallback known depth (required.contains name) ++ ",")
      :: emitPropertiesOr fallback known depth required ps

end

/-! ## Where it makes no difference -/

section

variable {fallback : String} {known : List String}

theorem combineOr_eq {f : String → String → String} {es : List String}
    (h : fallback = unknown ∨ es ≠ []) : combineOr fallback f es = combine f es := by
  cases es with
  | nil =>
      rcases h with rfl | h
      · rfl
      · exact absurd rfl h
  | cons e es => rfl

theorem emitMembers_ne_nil {depth : Nat} {members : List Node} (h : members ≠ []) :
    emitMembers known depth members ≠ [] := by
  cases members with
  | nil => exact absurd rfl h
  | cons n ns =>
      rw [emitMembers]
      exact List.cons_ne_nil _ _

theorem combineOr_members_eq {f : String → String → String} {depth : Nat} {members : List Node}
    (hmembers : emitMembersOr fallback known depth members = emitMembers known depth members)
    (h : fallback = unknown ∨ members ≠ []) :
    combineOr fallback f (emitMembersOr fallback known depth members) =
      combine f (emitMembers known depth members) := by
  rw [hmembers]
  exact combineOr_eq (h.imp_right emitMembers_ne_nil)

mutual

/-- **The emitter is not told apart** by the text that it has for no members: nothing changes with
its own text for them, nor with any text on well-formed nodes. -/
theorem Node.emitOr_eq : ∀ {n : Node} (depth : Nat) (required : Bool),
    fallback = unknown ∨ n.WellFormed →
      n.emitOr fallback known depth required = n.emitAt known depth required
  | ⟨kind, nullable, description⟩, depth, required, h => by
      rw [Node.emitOr, Node.emitAt, Kind.emitOr_eq depth (h.imp_right Node.wellFormed_iff.1)]

theorem Kind.emitOr_eq : ∀ {k : Kind} (depth : Nat), fallback = unknown ∨ k.WellFormed →
    k.emitOr fallback known depth = k.emitAt known depth
  | .allOf members, depth, h | .oneOf members, depth, h => by
      rw [Kind.emitOr, Kind.emitAt]
      exact combineOr_members_eq (emitMembersOr_eq (depth + 1) (h.imp_right (·.children)))
        (h.imp_right (·.proper))
  | .nullable inner, depth, h => by
      rw [Kind.emitOr, Kind.emitAt, Node.emitOr_eq (depth + 1) true
        (h.imp_right fun h => h.children inner List.mem_cons_self)]
  | .array (some items), depth, h => by
      rw [Kind.emitOr, Kind.emitAt, Node.emitOr_eq (depth + 1) true
        (h.imp_right fun h => h.children items List.mem_cons_self)]
  | .object properties required, depth, h => by
      rw [Kind.emitOr, Kind.emitAt,
        emitPropertiesOr_eq (depth + 1) required (h.imp_right (·.children))]
  | .ref _, _, _ | .string _, _, _ | .number _, _, _ | .boolean, _, _ | .null, _, _
  | .array none, _, _ | .any, _, _ => by
      rw [Kind.emitOr, Kind.emitAt]

theorem emitMembersOr_eq : ∀ {ns : List Node} (depth : Nat),
    fallback = unknown ∨ (∀ n ∈ ns, n.WellFormed) →
      emitMembersOr fallback known depth ns = emitMembers known depth ns
  | [], _, _ => by rw [emitMembersOr, emitMembers]
  | n :: ns, depth, h => by
      rw [emitMembersOr, emitMembers,
        Node.emitOr_eq depth true (h.imp_right fun h => h n List.mem_cons_self),
        emitMembersOr_eq depth (h.imp_right fun h m hm => h m (List.mem_cons_of_mem n hm))]

theorem emitPropertiesOr_eq : ∀ {ps : List (String × Node)} (depth : Nat) (required : List String),
    fallback = unknown ∨ (∀ n ∈ ps.map (·.2), n.WellFormed) →
      emitPropertiesOr fallback known depth required ps = emitProperties known depth required ps
  | [], _, _, _ => by rw [emitPropertiesOr, emitProperties]
  | (name, n) :: ps, depth, required, h => by
      rw [emitPropertiesOr, emitProperties,
        Node.emitOr_eq depth _ (h.imp_right fun h => h n List.mem_cons_self),
        emitPropertiesOr_eq depth required
          (h.imp_right fun h m hm => h m (List.mem_cons_of_mem n hm))]

end

/-- Without members the two are told apart. -/
example : (Node.ofKind (.allOf [])).emitOr "nothing" [] 0 true = "nothing" := by
  rfl

end

/-! ## Where it is never reached -/

/-- The nodes that are emitted: query parameters are emitted as one object. -/
def Api.emittedNodes (api : Api) : List Node :=
  api.schemas.map (·.2) ++ api.routes.flatMap fun route => route.2.flatMap (·.2.nodes)

/-- An endpoint's query parameters make a well-formed object when each is well formed. -/
theorem Endpoint.wellFormed_queryNode {e : Endpoint}
    (h : ∀ p ∈ e.query, p.node.WellFormed) {n : Node} (hn : n ∈ e.queryNode.toList) :
    n.WellFormed := by
  rw [queryNode] at hn
  split at hn
  · exact absurd hn List.not_mem_nil
  · rw [List.mem_singleton.1 hn]
    refine Node.wellFormed_iff.2 ⟨trivial, fun child hchild => ?_⟩
    obtain ⟨property, hmem, rfl⟩ := List.mem_map.1 hchild
    obtain ⟨p, hp, rfl⟩ := List.mem_map.1 (Ordered.mem_of_mem_ofWrites hmem)
    exact h p hp

theorem Endpoint.wellFormed_of_mem_nodes {e : Endpoint} (h : ∀ n ∈ e.heldNodes, n.WellFormed)
    {n : Node} (hn : n ∈ e.nodes) : n.WellFormed := by
  rcases List.mem_append.1 hn with hn | hn
  · exact h n (List.mem_append_left _ hn)
  · refine wellFormed_queryNode (fun p hp => h p.node ?_) hn
    exact List.mem_append_right _ (List.mem_map_of_mem (List.mem_append_left _ hp))

theorem Api.wellFormed_of_mem_emittedNodes {api : Api} (h : ∀ n ∈ api.heldNodes, n.WellFormed)
    {n : Node} (hn : n ∈ api.emittedNodes) : n.WellFormed := by
  rcases List.mem_append.1 hn with hn | hn
  · exact h n (List.mem_append_left _ hn)
  · obtain ⟨route, hroute, hn⟩ := List.mem_flatMap.1 hn
    obtain ⟨e, he, hn⟩ := List.mem_flatMap.1 hn
    refine Endpoint.wellFormed_of_mem_nodes (fun m hm => h m (List.mem_append_right _ ?_)) hn
    exact List.mem_flatMap.2 ⟨route, hroute, List.mem_flatMap.2 ⟨e, he, hm⟩⟩

/-- **The nodes of every document that is read** are well formed and no bare lists of members, and
those that are emitted never make the emitter fall back: with any other text for no members they are
emitted alike, while the emitter is the one that has its own text for them. -/
theorem nodes_wellFormed {v : Json} {api : Api} (h : Api.ofJson v = .ok api) :
    (∀ n ∈ api.heldNodes, n.WellFormed ∧ ∀ members, n.kind ≠ .allOf members) ∧
      (∀ n ∈ api.emittedNodes, n.WellFormed ∧
        ∀ fallback known required, n.emitOr fallback known 0 required = n.emit known required) ∧
      ∀ (n : Node) known required, n.emitOr unknown known 0 required = n.emit known required := by
  obtain ⟨doc, rfl⟩ := Api.exists_document h
  refine ⟨?_, ?_, fun n known required => Node.emitOr_eq 0 required (.inl rfl)⟩
  · intro n hn
    have hgives := gives_of_mem_heldNodes hn
    exact ⟨hgives.wellFormed, hgives.kind_ne_allOf⟩
  · intro n hn
    have hn : n.WellFormed :=
      Api.wellFormed_of_mem_emittedNodes (fun m hm => (gives_of_mem_heldNodes hm).wellFormed) hn
    exact ⟨hn, fun fallback known required => Node.emitOr_eq 0 required (.inr hn)⟩

/-! ### A component that is composed of itself -/

/-- A component with itself for its only member, one that is a string or null, and a response that
lists values with two members each. -/
def loopTree : Json :=
  .object [
    ("openapi", .string "3.0.0"),
    ("info", .object [("title", .string "Shelves"), ("version", .string "1")]),
    ("components", .object [("schemas", .object [
      ("Loop", .object [("allOf", .list [.object [("$ref", .string "#/components/schemas/Loop")]])]),
      ("Tag", .object [("type", .list [.string "string", .string "null"])])])]),
    ("paths", .object [("/shelves", .object [("get", .object [
      ("responses", .object [("200", .object [
        ("description", .string ""),
        ("content", .object [("application/json", .object [("schema", .object [
          ("type", .string "array"),
          ("items", .object [("allOf", .list [
            .object [("$ref", .string "#/components/schemas/Tag")],
            .object [("type", .string "string")]])])])])])])])])])])]

theorem loopTree_nodes_wellFormed :
    ∃ api, Api.ofJson loopTree = .ok api ∧
      api.heldNodes.map (·.kind) = [
        .any,
        .nullable (.ofKind (.string {})),
        .array (some (.ofKind (.allOf [
          .ofKind (.ref "#/components/schemas/Tag"), .ofKind (.string {})])))] ∧
      (∀ n ∈ api.heldNodes, n.WellFormed ∧ ∀ members, n.kind ≠ .allOf members) ∧
      ∀ n ∈ api.emittedNodes, n.WellFormed ∧
        ∀ fallback known required, n.emitOr fallback known 0 required = n.emit known required := by
  obtain ⟨api, hapi⟩ : ∃ api, Api.ofJson loopTree = .ok api := ⟨_, rfl⟩
  obtain ⟨hheld, hemitted, -⟩ := nodes_wellFormed hapi
  refine ⟨api, hapi, ?_, hheld, hemitted⟩
  cases hapi
  rfl

end EndpointBindings
