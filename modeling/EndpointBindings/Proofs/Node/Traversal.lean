import EndpointBindings.Node.Basic
import Mathlib.Data.List.Nodup

/-!
# Where a node stands in another, and in which order references are collected

A node is emitted and searched for references by two recursions that do not look alike: one carries
a depth and stops at a limit, the other carries a list and goes all the way down.  Both are compared
with the same thing, the places of a node.

Whatever collects references goes through a node from the left to the right, a node before what
stands in it, and takes a reference over unless it has it already.  So the references of a list of
nodes come in the order in which they first occur (`collected_in_order`).

| | |
| :-- | :-- |
| `Kind.children k` | the nodes directly below a kind, from left to right |
| `Node.Below n d m` | `m` stands in `n`, `d` levels down |
| `Node.RefersAt n d target` | a reference to `target` stands in `n`, `d` levels down |
| `Node.preorder n` | a node and the nodes that stand in it, as they are met |
| `Node.targets n` | the references among them, each as often as it occurs |
| `addTargets refs targets` | each reference is added to a list unless it is in it already |
| `FirstOccurrences refs targets new` | `new` are the others, in the order in which they occur |

The search knows no list of references: it is a recursion on nodes that carries what it has found.
That it only adds the references of `Node.targets` is one equation for each kind of node
(`Node.collectRefs_eq`), and what such a run adds is then a matter of lists (`addTargets_eq`).
-/

namespace EndpointBindings

/-! ## Places -/

/-- The nodes directly below a kind, from left to right. -/
def Kind.children : Kind → List Node
  | .allOf members => members
  | .oneOf members => members
  | .nullable inner => [inner]
  | .array (some items) => [items]
  | .object properties _ => properties.map (·.2)
  | .ref _ | .string _ | .number _ | .boolean | .null | .array none | .any => []

namespace Node

/-- One node stands in another, so many levels down. -/
inductive Below : Node → Nat → Node → Prop
  | here (n : Node) : Below n 0 n
  | down {n child m : Node} {d : Nat} : child ∈ n.kind.children → Below child d m →
      Below n (d + 1) m

/-- A reference stands in the node, so many levels down. -/
def RefersAt (n : Node) (d : Nat) (target : String) : Prop :=
  ∃ m, n.Below d m ∧ m.kind = .ref target

/-- A reference stands in the node somewhere. -/
def Refers (n : Node) (target : String) : Prop := ∃ d, n.RefersAt d target

theorem refersAt_zero_iff {n : Node} {target : String} :
    n.RefersAt 0 target ↔ n.kind = .ref target := by
  constructor
  · rintro ⟨m, hm, hkind⟩
    cases hm
    exact hkind
  · intro h
    exact ⟨n, .here n, h⟩

theorem refersAt_succ_iff {n : Node} {d : Nat} {target : String} :
    n.RefersAt (d + 1) target ↔ ∃ child ∈ n.kind.children, child.RefersAt d target := by
  constructor
  · rintro ⟨m, hm, hkind⟩
    cases hm with
    | down hchild hbelow => exact ⟨_, hchild, m, hbelow, hkind⟩
  · rintro ⟨child, hchild, m, hbelow, hkind⟩
    exact ⟨m, .down hchild hbelow, hkind⟩

end Node

/-! ## The nodes in a node -/

theorem Kind.sizeOf_lt_of_mem_children {k : Kind} {child : Node} (h : child ∈ k.children) :
    sizeOf child < sizeOf k := by
  cases k with
  | allOf members =>
      have hlt := List.sizeOf_lt_of_mem (show child ∈ members from h)
      simp only [Kind.allOf.sizeOf_spec]
      omega
  | oneOf members =>
      have hlt := List.sizeOf_lt_of_mem (show child ∈ members from h)
      simp only [Kind.oneOf.sizeOf_spec]
      omega
  | nullable inner =>
      cases List.mem_singleton.1 h
      simp only [Kind.nullable.sizeOf_spec]
      omega
  | array items =>
      cases items with
      | none => exact absurd h List.not_mem_nil
      | some items =>
          cases List.mem_singleton.1 h
          simp only [Kind.array.sizeOf_spec, Option.some.sizeOf_spec]
          omega
  | object properties required =>
      obtain ⟨⟨name, n⟩, hmem, rfl⟩ := List.mem_map.1 h
      have hlt := List.sizeOf_lt_of_mem hmem
      simp only [Kind.object.sizeOf_spec, Prod.mk.sizeOf_spec] at hlt ⊢
      omega
  | ref _ | string _ | number _ | boolean | null | any => exact absurd h List.not_mem_nil

theorem Node.sizeOf_lt_of_mem_children {n child : Node} (h : child ∈ n.kind.children) :
    sizeOf child < sizeOf n := by
  have hlt := Kind.sizeOf_lt_of_mem_children h
  cases n
  simp only [Node.mk.sizeOf_spec] at hlt ⊢
  omega

/-- A node and the nodes that stand in it: a node before its children, these from left to right. -/
def Node.preorder (n : Node) : List Node :=
  n :: n.kind.children.attach.flatMap fun child => child.1.preorder
termination_by sizeOf n
decreasing_by exact Node.sizeOf_lt_of_mem_children child.2

theorem Node.preorder_eq (n : Node) :
    n.preorder = n :: n.kind.children.flatMap Node.preorder := by
  rw [Node.preorder, ← List.flatMap_map Subtype.val, List.attach_map_subtype_val]

/-- Exactly the nodes that stand in a node are gone through. -/
theorem Node.mem_preorder_iff {m : Node} : ∀ {n : Node}, m ∈ n.preorder ↔ ∃ d, n.Below d m
  | n => by
    constructor
    · -- down to the child that holds it, which is smaller
      intro h
      rw [Node.preorder_eq, List.mem_cons, List.mem_flatMap] at h
      rcases h with rfl | ⟨child, hchild, h⟩
      · exact ⟨0, .here m⟩
      · obtain ⟨d, hbelow⟩ := Node.mem_preorder_iff.1 h
        exact ⟨d + 1, .down hchild hbelow⟩
    · rintro ⟨d, hbelow⟩
      induction hbelow with
      | here n =>
          rw [Node.preorder_eq]
          exact List.mem_cons_self
      | down hchild _ ih =>
          rw [Node.preorder_eq]
          exact List.mem_cons_of_mem _ (List.mem_flatMap.2 ⟨_, hchild, ih⟩)
termination_by n => sizeOf n
decreasing_by exact Node.sizeOf_lt_of_mem_children hchild

/-! ## The references in a node -/

/-- What a reference refers to. -/
def Kind.target? : Kind → Option String
  | .ref target => some target
  | _ => none

/-- The references in a node as they are met, each as often as it occurs. -/
def Node.targets (n : Node) : List String := n.preorder.filterMap (·.kind.target?)

theorem Kind.target?_eq_some_iff {k : Kind} {target : String} :
    k.target? = some target ↔ k = .ref target := by
  cases k <;> simp [Kind.target?]

theorem Node.mem_targets_iff {n : Node} {target : String} :
    target ∈ n.targets ↔ n.Refers target := by
  simp only [Node.targets, List.mem_filterMap, Node.mem_preorder_iff, Kind.target?_eq_some_iff]
  constructor
  · rintro ⟨m, ⟨d, hbelow⟩, hkind⟩
    exact ⟨d, m, hbelow, hkind⟩
  · rintro ⟨d, m, hbelow, hkind⟩
    exact ⟨m, ⟨d, hbelow⟩, hkind⟩

theorem Node.targets_eq (n : Node) :
    n.targets = n.kind.target?.toList ++ n.kind.children.flatMap Node.targets := by
  have hchildren : (n.kind.children.flatMap Node.preorder).filterMap (·.kind.target?) =
      n.kind.children.flatMap Node.targets := List.filterMap_flatMap ..
  rw [Node.targets, Node.preorder_eq, List.filterMap_cons, hchildren]
  cases n.kind.target? <;> rfl

/-! ## One reference after another -/

/-- Add references to a list that does not have them yet. -/
def addTargets (refs targets : List String) : List String :=
  targets.foldl (fun refs target => if target ∈ refs then refs else refs ++ [target]) refs

theorem addTargets_append (refs targets more : List String) :
    addTargets refs (targets ++ more) = addTargets (addTargets refs targets) more :=
  List.foldl_append

/-- The references that are not in a list, each once and in the order of its first occurrence. -/
structure FirstOccurrences (refs targets new : List String) : Prop where
  mem_iff : ∀ target, target ∈ new ↔ target ∈ targets ∧ target ∉ refs
  nodup : new.Nodup
  order : new.Pairwise fun s t => targets.idxOf s < targets.idxOf t

theorem FirstOccurrences.nil (refs : List String) : FirstOccurrences refs [] [] :=
  ⟨by simp, List.nodup_nil, .nil⟩

/-- Behind another one, references first occur in the same order. -/
theorem FirstOccurrences.order_cons {refs targets new : List String} {target : String}
    (h : FirstOccurrences refs targets new) (hnew : target ∉ new) :
    new.Pairwise fun s t => (target :: targets).idxOf s < (target :: targets).idxOf t := by
  refine h.order.imp_of_mem fun {s t} hs ht hlt => ?_
  have hs' : target ≠ s := fun he => hnew (he ▸ hs)
  have ht' : target ≠ t := fun he => hnew (he ▸ ht)
  rw [List.idxOf_cons_ne _ hs', List.idxOf_cons_ne _ ht']
  exact Nat.succ_lt_succ hlt

/-- A reference that is there already adds nothing. -/
theorem FirstOccurrences.known {refs targets new : List String} {target : String}
    (h : FirstOccurrences refs targets new) (hknown : target ∈ refs) :
    FirstOccurrences refs (target :: targets) new where
  mem_iff := by
    intro t
    rw [h.mem_iff, List.mem_cons]
    constructor
    · rintro ⟨ht, hfresh⟩
      exact ⟨.inr ht, hfresh⟩
    · rintro ⟨rfl | ht, hfresh⟩
      · exact absurd hknown hfresh
      · exact ⟨ht, hfresh⟩
  nodup := h.nodup
  order := h.order_cons fun hnew => ((h.mem_iff target).1 hnew).2 hknown

/-- A reference that is not there comes before what is added from then on. -/
theorem FirstOccurrences.fresh {refs targets new : List String} {target : String}
    (h : FirstOccurrences (refs ++ [target]) targets new) (hfresh : target ∉ refs) :
    FirstOccurrences refs (target :: targets) (target :: new) := by
  have hnew : target ∉ new := fun hmem => ((h.mem_iff target).1 hmem).2 (by simp)
  refine ⟨?_, List.nodup_cons.2 ⟨hnew, h.nodup⟩, List.pairwise_cons.2 ⟨?_, h.order_cons hnew⟩⟩
  · intro t
    rw [List.mem_cons, List.mem_cons, h.mem_iff, List.mem_append, List.mem_singleton]
    by_cases ht : t = target
    · simp [ht, hfresh]
    · simp [ht]
  · intro t ht
    have hne : target ≠ t := fun he => hnew (he ▸ ht)
    rw [List.idxOf_cons_self, List.idxOf_cons_ne _ hne]
    exact Nat.succ_pos _

/-- What one reference after another adds. -/
theorem addTargets_eq (targets refs : List String) :
    ∃ new, addTargets refs targets = refs ++ new ∧ FirstOccurrences refs targets new := by
  induction targets generalizing refs with
  | nil => exact ⟨[], (List.append_nil refs).symm, .nil refs⟩
  | cons target targets ih =>
      by_cases hmem : target ∈ refs
      · obtain ⟨new, hadded, hfirst⟩ := ih refs
        refine ⟨new, ?_, hfirst.known hmem⟩
        rw [← hadded, addTargets, List.foldl_cons, if_pos hmem, ← addTargets]
      · obtain ⟨new, hadded, hfirst⟩ := ih (refs ++ [target])
        refine ⟨target :: new, ?_, hfirst.fresh hmem⟩
        rw [List.append_cons, ← hadded, addTargets, List.foldl_cons, if_neg hmem, ← addTargets]

/-! ## The search -/

mutual

/-- The search adds the references of a node, one after another. -/
theorem Node.collectRefs_eq : ∀ (n : Node) (refs : List String),
    n.collectRefs refs = addTargets refs n.targets
  | ⟨kind, nullable, description⟩, refs => by
      rw [Node.targets_eq]
      unfold Node.collectRefs
      exact kind.collectRefs_eq refs

theorem Kind.collectRefs_eq : ∀ (k : Kind) (refs : List String),
    k.collectRefs refs = addTargets refs (k.target?.toList ++ k.children.flatMap Node.targets)
  | .ref target, refs => by
      unfold Kind.collectRefs
      rfl
  | .allOf members, refs => by
      unfold Kind.collectRefs
      exact collectRefsOfAll_eq members refs
  | .oneOf members, refs => by
      unfold Kind.collectRefs
      exact collectRefsOfAll_eq members refs
  | .nullable inner, refs => by
      unfold Kind.collectRefs
      rw [inner.collectRefs_eq, Kind.children, List.flatMap_singleton]
      rfl
  | .array (some items), refs => by
      unfold Kind.collectRefs
      rw [items.collectRefs_eq, Kind.children, List.flatMap_singleton]
      rfl
  | .object properties _, refs => by
      unfold Kind.collectRefs
      exact collectRefsOfProperties_eq properties refs
  | .string _, refs | .number _, refs | .boolean, refs | .null, refs | .array none, refs
  | .any, refs => by
      unfold Kind.collectRefs
      rfl

theorem collectRefsOfAll_eq : ∀ (ns : List Node) (refs : List String),
    collectRefsOfAll refs ns = addTargets refs (ns.flatMap Node.targets)
  | [], refs => by
      unfold collectRefsOfAll
      rfl
  | n :: ns, refs => by
      unfold collectRefsOfAll
      rw [collectRefsOfAll_eq ns, n.collectRefs_eq, List.flatMap_cons, addTargets_append]

theorem collectRefsOfProperties_eq : ∀ (ps : List (String × Node)) (refs : List String),
    collectRefsOfProperties refs ps = addTargets refs ((ps.map (·.2)).flatMap Node.targets)
  | [], refs => by
      unfold collectRefsOfProperties
      rfl
  | (_, n) :: ps, refs => by
      unfold collectRefsOfProperties
      rw [collectRefsOfProperties_eq ps, n.collectRefs_eq, List.map_cons, List.flatMap_cons,
        addTargets_append]

end

/-- What is collected from nodes is what they refer to. -/
theorem mem_collectRefsOfAll (target : String) (ns : List Node) (refs : List String) :
    target ∈ collectRefsOfAll refs ns ↔ target ∈ refs ∨ ∃ n ∈ ns, n.Refers target := by
  obtain ⟨new, hadded, hfirst⟩ := addTargets_eq (ns.flatMap Node.targets) refs
  simp only [collectRefsOfAll_eq, hadded, List.mem_append, hfirst.mem_iff, List.mem_flatMap,
    Node.mem_targets_iff]
  tauto

/-! ## The theorem -/

/-- Nodes are searched in turn, each with what was found before it. -/
theorem foldl_collectRefs (ns : List Node) (refs : List String) :
    ns.foldl (fun refs n => n.collectRefs refs) refs =
      addTargets refs (ns.flatMap Node.targets) := by
  induction ns generalizing refs with
  | nil => rfl
  | cons n ns ih =>
      rw [List.foldl_cons, ih, n.collectRefs_eq, List.flatMap_cons, addTargets_append]

/-- **References are collected in the order in which they first occur.**  Nodes that are searched in
turn leave the list that was given to the first of them, and behind it whatever they refer to and it
does not have, each reference once, the one before the other that is met before it. -/
theorem collected_in_order (refs : List String) (ns : List Node) :
    ∃ new, ns.foldl (fun refs n => n.collectRefs refs) refs = refs ++ new ∧
      (∀ target, target ∈ new ↔ (∃ n ∈ ns, n.Refers target) ∧ target ∉ refs) ∧
      FirstOccurrences refs (ns.flatMap Node.targets) new ∧
      (refs.Nodup → (refs ++ new).Nodup) := by
  obtain ⟨new, hadded, hfirst⟩ := addTargets_eq (ns.flatMap Node.targets) refs
  refine ⟨new, (foldl_collectRefs ns refs).trans hadded, ?_, hfirst, ?_⟩
  · intro target
    simp only [hfirst.mem_iff, List.mem_flatMap, Node.mem_targets_iff]
  · intro hrefs
    refine List.nodup_append.2 ⟨hrefs, hfirst.nodup, ?_⟩
    rintro target hold _ hnew rfl
    exact ((hfirst.mem_iff target).1 hnew).2 hold

/-! ### A pet's record -/

/-- A pet with an owner, who may be its vet, and with young ones. -/
def petRecord : Node :=
  .object [("owner", .ref "#/Person"), ("young", .ofKind (.array (some (.ref "#/Pet")))),
    ("vet", .ref "#/Person")] []

/-- A dated record that may be signed. -/
def signedRecord : Node :=
  .ofKind (.allOf [.ref "#/Dated", .ref "#/Pet", .ofKind (.nullable (.ref "#/Signature"))])

theorem records_in_order :
    ["#/Dated"].Nodup ∧
    [petRecord, signedRecord].foldl (fun refs n => n.collectRefs refs) ["#/Dated"] =
      ["#/Dated", "#/Person", "#/Pet", "#/Signature"] ∧
    FirstOccurrences ["#/Dated"] ([petRecord, signedRecord].flatMap Node.targets)
      ["#/Person", "#/Pet", "#/Signature"] ∧
    ["#/Dated", "#/Person", "#/Pet", "#/Signature"].Nodup := by
  have hnodup : ["#/Dated"].Nodup := List.nodup_singleton _
  have hfold : [petRecord, signedRecord].foldl (fun refs n => n.collectRefs refs) ["#/Dated"] =
      ["#/Dated"] ++ ["#/Person", "#/Pet", "#/Signature"] := by decide
  obtain ⟨new, hadded, -, hfirst, hkept⟩ :=
    collected_in_order ["#/Dated"] [petRecord, signedRecord]
  obtain rfl : ["#/Person", "#/Pet", "#/Signature"] = new :=
    List.append_cancel_left (hfold.symm.trans hadded)
  exact ⟨hnodup, hfold, hfirst, hkept hnodup⟩

end EndpointBindings
