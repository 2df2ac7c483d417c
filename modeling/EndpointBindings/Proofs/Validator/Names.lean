import EndpointBindings.Proofs.Node.Traversal
import EndpointBindings.Proofs.Validator.Meaning

/-!
# The names that a validator uses

A name enters an expression in one place only, inside `lazy`.  The names of a node's expression are
those of the references that stand in the node no deeper than is emitted, and whose component is
known (`Node.mem_lazyNames`).  Nothing else that the node holds adds a name or takes one away: not
its marks, not the order of members, not whether a field is required.
-/

namespace EndpointBindings

open Validator

namespace Validator

mutual

/-- The names that an expression uses, from left to right. -/
def Expr.lazyNames : Expr → List String
  | .plain _ | .enum _ => []
  | .array items => items.lazyNames
  | .object fields => lazyNamesOfFields fields
  | .intersection left right => left.lazyNames ++ right.lazyNames
  | .lazy name => [name]
  | .mark e _ => e.lazyNames
  | .bound e _ _ => e.lazyNames
  | .describe e _ => e.lazyNames
  | .or left right => left.lazyNames ++ right.lazyNames

def lazyNamesOfFields : List (String × Expr) → List String
  | [] => []
  | (_, e) :: fields => e.lazyNames ++ lazyNamesOfFields fields

end

/-- A text is an expression that uses a name. -/
def Uses (text name : String) : Prop := ∃ e, parse text = some e ∧ name ∈ e.lazyNames

/-! ## Marks and combinations -/

@[simp] theorem lazyNames_unknownExpr : unknownExpr.lazyNames = [] := by
  unfold unknownExpr Expr.lazyNames
  rfl

@[simp] theorem lazyNames_withMark (m : Mark) (present : Bool) (e : Expr) :
    (e.withMark m present).lazyNames = e.lazyNames := by
  cases present with
  | true => rw [Expr.withMark, if_pos rfl, Expr.lazyNames]
  | false => rfl

@[simp] theorem lazyNames_withBound (b : Bound) (limit : Option Number) (e : Expr) :
    (e.withBound b limit).lazyNames = e.lazyNames := by
  cases limit with
  | none => rfl
  | some n => rw [Expr.withBound, Expr.lazyNames]

@[simp] theorem lazyNames_withDescription (text : Option String) (e : Expr) :
    (e.withDescription text).lazyNames = e.lazyNames := by
  cases text with
  | none => rfl
  | some text => rw [Expr.withDescription, Expr.lazyNames]

/-- A combination that keeps the names of both sides keeps the names of all. -/
theorem lazyNames_combineExprs {f : Expr → Expr → Expr}
    (hf : ∀ a b, (f a b).lazyNames = a.lazyNames ++ b.lazyNames) (es : List Expr) :
    (combineExprs f es).lazyNames = es.flatMap Expr.lazyNames := by
  cases es with
  | nil => exact lazyNames_unknownExpr
  | cons e es =>
      rw [combineExprs, List.flatMap_cons]
      induction es generalizing e with
      | nil => simp
      | cons e' es ih => rw [List.foldl_cons, ih, hf, List.flatMap_cons, List.append_assoc]

end Validator

theorem StringRules.lazyNames_expr (r : StringRules) : r.expr.lazyNames = [] := by
  unfold StringRules.expr
  split
  · rw [Expr.lazyNames]
  · split
    · simp [Expr.lazyNames]
    · split <;> simp [Expr.lazyNames]

theorem NumberRules.lazyNames_expr (r : NumberRules) : r.expr.lazyNames = [] := by
  simp [NumberRules.expr, Expr.lazyNames]

/-! ## Nodes -/

/-- The name of a known component that a reference stands for, no deeper than is emitted. -/
def Node.NamesAt (known : List String) (depth : Nat) (n : Node) (name : String) : Prop :=
  ∃ d target, n.RefersAt d target ∧ depth + d ≤ maxEmitDepth ∧
    refName target ∈ known ∧ schemaIdent (refName target) = name

theorem Node.namesAt_iff {known : List String} {depth : Nat} {n : Node} {name : String} :
    n.NamesAt known depth name ↔ depth ≤ maxEmitDepth ∧
      ((∃ target, n.kind = .ref target ∧ refName target ∈ known ∧
          schemaIdent (refName target) = name) ∨
        ∃ child ∈ n.kind.children, child.NamesAt known (depth + 1) name) := by
  constructor
  · rintro ⟨d, target, hrefers, hdepth, hknown, hname⟩
    cases d with
    | zero =>
        exact ⟨hdepth, .inl ⟨target, Node.refersAt_zero_iff.1 hrefers, hknown, hname⟩⟩
    | succ d =>
        obtain ⟨child, hchild, hrefers⟩ := Node.refersAt_succ_iff.1 hrefers
        exact ⟨by omega, .inr ⟨child, hchild, d, target, hrefers, by omega, hknown, hname⟩⟩
  · rintro ⟨hdepth, ⟨target, hkind, hknown, hname⟩ | ⟨child, hchild, d, target, h⟩⟩
    · exact ⟨0, target, Node.refersAt_zero_iff.2 hkind, hdepth, hknown, hname⟩
    · obtain ⟨hrefers, hdepth, hknown, hname⟩ := h
      exact ⟨d + 1, target, Node.refersAt_succ_iff.2 ⟨child, hchild, hrefers⟩, by omega, hknown,
        hname⟩

/-- The name of a known component that a reference stands for, however deep. -/
def Node.Names (known : List String) (n : Node) (name : String) : Prop :=
  ∃ target, n.Refers target ∧ refName target ∈ known ∧ schemaIdent (refName target) = name

theorem Node.NamesAt.names {known : List String} {depth : Nat} {n : Node} {name : String}
    (h : n.NamesAt known depth name) : n.Names known name := by
  obtain ⟨d, target, hrefers, -, hname⟩ := h
  exact ⟨target, ⟨d, hrefers⟩, hname⟩

/-- In a node that is emitted as a whole nothing is too deep. -/
theorem Node.Names.namesAt {known : List String} {n : Node} {name : String}
    (hdepth : ∀ d m, n.Below d m → d ≤ maxEmitDepth) (h : n.Names known name) :
    n.NamesAt known 0 name := by
  obtain ⟨target, ⟨d, m, hbelow, hkind⟩, hname⟩ := h
  have hd : 0 + d ≤ maxEmitDepth := by
    rw [Nat.zero_add]
    exact hdepth d m hbelow
  exact ⟨d, target, ⟨m, hbelow, hkind⟩, hd, hname⟩

mutual

theorem Node.mem_lazyNames (known : List String) (name : String) :
    ∀ (n : Node) (depth : Nat) (required : Bool),
      name ∈ (n.exprAt known depth required).lazyNames ↔ n.NamesAt known depth name
  | ⟨kind, nullable, description⟩, depth, required => by
      rw [Node.namesAt_iff]
      unfold Node.exprAt
      simp only [lazyNames_withMark, lazyNames_withDescription]
      split
      · next hdeep =>
          rw [lazyNames_unknownExpr]
          constructor
          · intro h
            exact absurd h List.not_mem_nil
          · rintro ⟨hdepth, -⟩
            exact absurd hdepth (Nat.not_le_of_gt hdeep)
      · next hdeep =>
          rw [kind.mem_lazyNames known name depth]
          exact ⟨fun h => ⟨Nat.le_of_not_gt hdeep, h⟩, fun h => h.2⟩

theorem Kind.mem_lazyNames (known : List String) (name : String) : ∀ (k : Kind) (depth : Nat),
    name ∈ (k.exprAt known depth).lazyNames ↔
      (∃ target, k = .ref target ∧ refName target ∈ known ∧
          schemaIdent (refName target) = name) ∨
        ∃ child ∈ k.children, child.NamesAt known (depth + 1) name
  | .ref target, depth => by
      unfold Kind.exprAt
      by_cases h : refName target ∈ known
      · rw [if_pos (List.contains_iff_mem.2 h), Expr.lazyNames, List.mem_singleton]
        simp [Kind.children, h, eq_comm]
      · rw [if_neg (fun hc => h (List.contains_iff_mem.1 hc))]
        simp [Kind.children, h]
  | .allOf members, depth | .oneOf members, depth => by
      unfold Kind.exprAt
      rw [lazyNames_combineExprs (fun a b => by rw [Expr.lazyNames]),
        mem_lazyNames_members known name members (depth + 1)]
      simp [Kind.children]
  | .nullable inner, depth => by
      unfold Kind.exprAt
      rw [Expr.lazyNames, inner.mem_lazyNames known name (depth + 1) true]
      simp [Kind.children]
  | .array (some items), depth => by
      unfold Kind.exprAt
      rw [Expr.lazyNames, items.mem_lazyNames known name (depth + 1) true]
      simp [Kind.children]
  | .object properties required, depth => by
      unfold Kind.exprAt
      rw [Expr.lazyNames, mem_lazyNames_fields known name properties (depth + 1) required]
      simp [Kind.children]
  | .string rules, depth => by
      unfold Kind.exprAt
      simp [rules.lazyNames_expr, Kind.children]
  | .number rules, depth => by
      unfold Kind.exprAt
      simp [rules.lazyNames_expr, Kind.children]
  | .boolean, depth | .null, depth | .array none, depth | .any, depth => by
      unfold Kind.exprAt
      simp [Expr.lazyNames, Kind.children]

theorem mem_lazyNames_members (known : List String) (name : String) :
    ∀ (ns : List Node) (depth : Nat),
      name ∈ (memberExprs known depth ns).flatMap Expr.lazyNames ↔
        ∃ n ∈ ns, n.NamesAt known depth name
  | [], depth => by
      unfold memberExprs
      simp
  | n :: ns, depth => by
      unfold memberExprs
      rw [List.flatMap_cons, List.mem_append, n.mem_lazyNames known name depth true,
        mem_lazyNames_members known name ns depth]
      simp only [List.mem_cons, exists_eq_or_imp]

theorem mem_lazyNames_fields (known : List String) (name : String) :
    ∀ (ps : List (String × Node)) (depth : Nat) (required : List String),
      name ∈ lazyNamesOfFields (fieldExprs known depth required ps) ↔
        ∃ n ∈ ps.map (·.2), n.NamesAt known depth name
  | [], depth, required => by
      unfold fieldExprs lazyNamesOfFields
      simp
  | (key, n) :: ps, depth, required => by
      unfold fieldExprs lazyNamesOfFields
      rw [List.mem_append, n.mem_lazyNames known name depth (required.contains key),
        mem_lazyNames_fields known name ps depth required]
      simp only [List.map_cons, List.mem_cons, exists_eq_or_imp]

end

/-- **The names that an emitted validator uses**, read off its text. -/
theorem Node.uses_emit_iff {known : List String} {required : Bool} {n : Node} {name : String} :
    Uses (n.emit known required) name ↔ n.NamesAt known 0 name := by
  have hparse : parse (n.emit known required) = some (n.exprAt known 0 required) :=
    (denotes_node known 0 required n).parse
  rw [← n.mem_lazyNames known name 0 required, Uses, hparse]
  constructor
  · rintro ⟨e, he, hname⟩
    cases he
    exact hname
  · intro h
    exact ⟨_, rfl, h⟩

end EndpointBindings
