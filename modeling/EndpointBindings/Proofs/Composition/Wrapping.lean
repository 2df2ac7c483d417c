import EndpointBindings.Proofs.Composition.Positions

/-!
# A schema wrapped in `allOf`

Inside another schema, `{"allOf": [s]}` becomes a node of one member, which is printed as the member
is.  Where an endpoint begins it is composed, and what comes out is not `s` but what a composition
takes over of it: properties, required names, type, format and description (`Schema.carried`).

So the wrapped schema has the description of the schema itself, and its marks and kind as far as
nothing else decides them:

| | the same exactly when |
| :-- | :-- |
| description | always |
| whether null is allowed | the schema does not say `nullable: true` |
| kind | there are no alternatives, and the type reads nothing that is left behind |

`wrapped_node` puts the three together.
-/

namespace EndpointBindings

open Ordered (keys)

/-! ## What is taken over -/

/-- The schema that is composed of this one and says nothing else. -/
def Schema.wrapped (s : Schema) : Schema := { allOf := some [s] }

/-- The plain keywords that a composition takes over. -/
def Facets.carried (f : Facets) : Facets where
  types := f.types
  required := f.required
  format := f.format
  description := f.description

/-- What a composition takes over of a schema. -/
def Schema.carried (s : Schema) : Schema where
  facets := s.facets.carried
  properties := s.properties

/-- A schema merged into nothing leaves what is taken over of it. -/
theorem Schema.merge_into_empty {s : Schema} (hnames : (keys s.ownProperties).Nodup) :
    ({} : Schema).merge s = s.carried := by
  have hproperties : mergeProperties none s.properties = s.properties := by
    rw [ownProperties] at hnames
    cases hps : s.properties with
    | none => rfl
    | some ps =>
        rw [hps] at hnames
        exact congrArg some (Ordered.ofWrites_of_nodup hnames)
  have hrequired : mergeRequired none s.facets.required = s.facets.required := by
    cases s.facets.required <;> rfl
  simp only [merge, carried, Facets.carried, hproperties, hrequired, Option.orElse_eq_orElse,
    Option.orElse_eq_or, Option.none_or]

/-- Composing the wrapped schema gives what is taken over. -/
theorem Schema.compose_wrapped (root : Json) {s : Schema} (href : s.facets.ref = none)
    (hmembers : s.members = []) (hnames : (keys s.ownProperties).Nodup) :
    s.wrapped.compose root = s.carried := by
  have hfuel : compositionBound root s.wrapped ≤ compositionBound root s.wrapped + 2 :=
    Nat.le_add_right _ 2
  have hcompose := composeWithin_eq_compose hfuel
  rw [composeWithin_succ, if_neg (by simp [isComposed, members, wrapped])] at hcompose
  simp only [members, wrapped, Option.getD_some, List.foldlM_cons, List.foldlM_nil, callee?, href,
    composeWithin_of_plain hmembers, Option.map_some, Option.bind_eq_bind, Option.bind_some,
    Option.pure_def, Option.some.injEq] at hcompose
  rw [wrapped, ← hcompose]
  exact merge_into_empty hnames

/-! ## What a type reads -/

/-- A type reads nothing of these keywords but what a composition takes over. -/
structure Facets.CarriedFor (f : Facets) (items : Option Node) (name : String) : Prop where
  string : name = "string" →
    f.enumValues.getD [] = [] ∧ f.minLength = none ∧ f.maxLength = none
  number : name = "number" ∨ name = "integer" → f.minimum = none ∧ f.maximum = none
  array : name = "array" → items = none

theorem stringRules_carried_iff {f : Facets} :
    f.carried.stringRules = f.stringRules ↔
      f.enumValues.getD [] = [] ∧ f.minLength = none ∧ f.maxLength = none := by
  simp only [Facets.stringRules, Facets.carried, StringRules.mk.injEq, Option.getD_none,
    List.map_nil, true_and, eq_comm (a := ([] : List String)), List.map_eq_nil_iff,
    eq_comm (a := (none : Option Nat))]

theorem numberRules_carried_iff {f : Facets} {isInteger : Bool} :
    f.carried.numberRules isInteger = f.numberRules isInteger ↔
      f.minimum = none ∧ f.maximum = none := by
  simp only [Facets.numberRules, Facets.carried, NumberRules.mk.injEq, true_and,
    eq_comm (a := (none : Option Number))]

theorem kindOfType_carried_iff {f : Facets} {items : Option Node}
    {properties : List (String × Node)} {name : String} :
    kindOfType f.carried none properties name = kindOfType f items properties name ↔
      f.CarriedFor items name := by
  unfold kindOfType
  split
  · rw [Kind.string.injEq, stringRules_carried_iff]
    exact ⟨fun h => ⟨fun _ => h, by simp, by simp⟩, fun h => h.string rfl⟩
  · rw [Kind.number.injEq, numberRules_carried_iff]
    exact ⟨fun h => ⟨by simp, fun _ => h, by simp⟩, fun h => h.number (.inl rfl)⟩
  · rw [Kind.number.injEq, numberRules_carried_iff]
    exact ⟨fun h => ⟨by simp, fun _ => h, by simp⟩, fun h => h.number (.inr rfl)⟩
  · exact iff_of_true rfl ⟨by simp, by simp, by simp⟩
  · exact iff_of_true rfl ⟨by simp, by simp, by simp⟩
  · rw [Kind.array.injEq]
    exact ⟨fun h => ⟨by simp, by simp, fun _ => h.symm⟩, fun h => (h.array rfl).symm⟩
  · exact iff_of_true rfl ⟨by simp, by simp, by simp⟩
  · next hstring hnumber hinteger _ _ harray _ =>
      exact iff_of_true rfl ⟨fun h => absurd h hstring, fun h => (h.elim hnumber hinteger).elim,
        fun h => absurd h harray⟩

/-- The type that a list of types decides by, null left aside: the one that there is, and for
several that of strings. -/
def decidingOf (names : List String) : Option String :=
  match names.filter (· ≠ "null") with
  | [] => none
  | [name] => some name
  | _ => some "string"

/-- The type that decides the kind, where no reference, member or alternative does. -/
def Facets.decidingType? (f : Facets) : Option String :=
  match f.types with
  | none => none
  | some (.single name) => some name
  | some (.several names) => decidingOf names

theorem kindOfTypes_carried_iff {f : Facets} {items : Option Node}
    {properties : List (String × Node)} {names : List String} :
    kindOfTypes f.carried none properties names = kindOfTypes f items properties names ↔
      ∀ name, decidingOf names = some name → f.CarriedFor items name := by
  -- marking a kind with null takes nothing away from it
  have hmarked : ∀ k k' : Kind,
      ((if names.contains "null" then Kind.nullable (.ofKind k) else k) =
        if names.contains "null" then Kind.nullable (.ofKind k') else k') ↔ k = k' := by
    intro k k'
    split
    · simp only [Kind.nullable.injEq, Node.ofKind, Node.mk.injEq, and_true]
    · rfl
  unfold kindOfTypes decidingOf
  cases names.filter (· ≠ "null") with
  | nil => simp
  | cons name rest =>
      cases rest with
      | nil =>
          simp only [hmarked, Option.some.injEq, forall_eq']
          exact kindOfType_carried_iff
      | cons name' rest =>
          simp only [hmarked, Option.some.injEq, forall_eq']
          exact @kindOfType_carried_iff f items properties "string"

/-! ## What decides the kind -/

/-- A schema's kind rests on nothing but what a composition takes over. -/
structure Schema.KindCarried (s : Schema) : Prop where
  oneOf : s.oneOf.getD [] = []
  anyOf : s.anyOf.getD [] = []
  type : ∀ name, s.facets.decidingType? = some name →
    s.facets.CarriedFor (Schema.optionalNode s.items) name

theorem kindOfType_ne_oneOf (f : Facets) (items : Option Node)
    (properties : List (String × Node)) (name : String) (nodes : List Node) :
    kindOfType f items properties name ≠ .oneOf nodes := by
  unfold kindOfType
  split <;> exact Kind.noConfusion

theorem kindOfTypes_ne_oneOf (f : Facets) (items : Option Node)
    (properties : List (String × Node)) (names : List String) (nodes : List Node) :
    kindOfTypes f items properties names ≠ .oneOf nodes := by
  have hmarked : ∀ k : Kind, k ≠ .oneOf nodes →
      (if names.contains "null" then Kind.nullable (.ofKind k) else k) ≠ .oneOf nodes := by
    intro k hk
    split
    · exact Kind.noConfusion
    · exact hk
  unfold kindOfTypes
  cases names.filter (· ≠ "null") with
  | nil =>
      dsimp only
      split <;> exact Kind.noConfusion
  | cons name rest =>
      cases rest with
      | nil => exact hmarked _ (kindOfType_ne_oneOf f items properties name nodes)
      | cons name' rest => exact hmarked _ Kind.noConfusion

/-- A type never makes alternatives. -/
theorem kindOfParts_ne_oneOf {f : Facets} (href : f.ref = none) (properties : List (String × Node))
    (items : Option Node) (nodes : List Node) :
    kindOfParts f properties items [] [] [] ≠ .oneOf nodes := by
  unfold kindOfParts
  simp only [href]
  split
  · exact kindOfType_ne_oneOf _ _ _ _ _
  · exact kindOfTypes_ne_oneOf _ _ _ _ _
  · split <;> exact Kind.noConfusion

/-- Alternatives decide before the type does. -/
theorem kindOfParts_of_alternatives {f : Facets} (href : f.ref = none)
    (properties : List (String × Node)) (items : Option Node) {oneOf anyOf : List Schema}
    (h : ¬ (oneOf = [] ∧ anyOf = [])) :
    ∃ nodes, kindOfParts f properties items [] (oneOf.map Schema.toNode)
      (anyOf.map Schema.toNode) = .oneOf nodes := by
  unfold kindOfParts
  simp only [href]
  cases oneOf with
  | cons s rest => exact ⟨_, rfl⟩
  | nil =>
      cases anyOf with
      | cons s rest => exact ⟨_, rfl⟩
      | nil => exact absurd ⟨rfl, rfl⟩ h

/-- Without alternatives the type decides. -/
theorem kindOfParts_carried_iff {f : Facets} (href : f.ref = none)
    (properties : List (String × Node)) (items : Option Node) :
    kindOfParts f.carried properties none [] [] [] = kindOfParts f properties items [] [] [] ↔
      ∀ name, f.decidingType? = some name → f.CarriedFor items name := by
  have hcarried : f.carried.ref = none := rfl
  have htypes : f.carried.types = f.types := rfl
  unfold kindOfParts Facets.decidingType?
  simp only [href, hcarried, htypes]
  cases f.types with
  | none => exact iff_of_true rfl (fun _ h => by cases h)
  | some types =>
      cases types with
      | single name =>
          simp only [Option.some.injEq, forall_eq']
          exact kindOfType_carried_iff
      | several names => exact kindOfTypes_carried_iff

theorem Schema.carried_kind_iff {s : Schema} (href : s.facets.ref = none)
    (hmembers : s.members = []) : s.carried.toNode.kind = s.toNode.kind ↔ s.KindCarried := by
  have hcarried : s.carried.toNode.kind =
      kindOfParts s.facets.carried (optionalNamedNodes s.properties) none [] [] [] := by
    rw [toNode_kind]
    rfl
  rw [hcarried, toNode_kind, hmembers, List.map_nil]
  by_cases hplain : s.oneOf.getD [] = [] ∧ s.anyOf.getD [] = []
  · rw [hplain.1, hplain.2, List.map_nil, kindOfParts_carried_iff href]
    exact ⟨fun h => ⟨hplain.1, hplain.2, h⟩, fun h => h.type⟩
  · refine iff_of_false ?_ (fun h => hplain ⟨h.oneOf, h.anyOf⟩)
    obtain ⟨nodes, hnodes⟩ := kindOfParts_of_alternatives href
      (optionalNamedNodes s.properties) (optionalNode s.items) hplain
    rw [hnodes]
    exact kindOfParts_ne_oneOf rfl _ _ _

/-! ## The theorem -/

theorem Schema.toNode_marks (s : Schema) :
    s.toNode.nullable = s.facets.nullable.getD false ∧
      s.toNode.description = s.facets.description := by
  cases s
  rw [toNode]
  exact ⟨rfl, rfl⟩

/-- **A schema wrapped in `allOf`.**  Where an endpoint begins, its node is the node of what a
composition takes over of the schema.  That has the schema's description in any case, is marked as
the schema is unless that says `nullable: true`, and is of the schema's kind exactly when this
kind rests on nothing else. -/
theorem wrapped_node (doc : Document) {s : Schema} (href : s.facets.ref = none)
    (hmembers : s.members = []) (hnames : (keys s.ownProperties).Nodup) :
    nodeIn doc s.wrapped = s.carried.toNode ∧
    (nodeIn doc s.wrapped).description = (nodeIn doc s).description ∧
    ((nodeIn doc s.wrapped).nullable = (nodeIn doc s).nullable ↔ s.facets.nullable ≠ some true) ∧
    ((nodeIn doc s.wrapped).kind = (nodeIn doc s).kind ↔ s.KindCarried) := by
  have hwrapped : nodeIn doc s.wrapped = s.carried.toNode :=
    congrArg Schema.toNode (Schema.compose_wrapped doc.raw href hmembers hnames)
  rw [hwrapped, nodeIn_of_plain hmembers]
  refine ⟨rfl, ?_, ?_, Schema.carried_kind_iff href hmembers⟩
  · rw [s.toNode_marks.2, s.carried.toNode_marks.2]
    rfl
  · rw [s.toNode_marks.1, s.carried.toNode_marks.1]
    show false = s.facets.nullable.getD false ↔ _
    cases s.facets.nullable with
    | none => simp
    | some b => cases b <;> simp

/-! ### A text and a choice -/

/-- A text of a format. -/
def emailSchema : Schema :=
  { facets := { types := some (.several ["string", "null"]), format := some "email" } }

/-- A text or a number. -/
def choiceTree : Json :=
  .object [("oneOf", .list [.object [("type", .string "string")],
    .object [("type", .string "number")]])]

theorem email_wrapped_node :
    emailSchema.facets.ref = none ∧ emailSchema.members = [] ∧
    (keys emailSchema.ownProperties).Nodup ∧ emailSchema.KindCarried ∧
    (nodeIn entryDocument emailSchema.wrapped).kind =
      (nodeIn entryDocument emailSchema).kind := by
  have hcarried : emailSchema.KindCarried := by
    refine ⟨rfl, rfl, fun name hname => ?_⟩
    cases hname
    exact ⟨fun _ => ⟨rfl, rfl, rfl⟩, fun _ => ⟨rfl, rfl⟩, fun _ => rfl⟩
  exact ⟨rfl, rfl, List.nodup_nil, hcarried,
    (wrapped_node entryDocument (s := emailSchema) rfl rfl List.nodup_nil).2.2.2.2 hcarried⟩

/-- The alternatives of a choice are gone when it is wrapped. -/
theorem choice_lost_when_wrapped :
    (Schema.ofJson choiceTree).facets.ref = none ∧ (Schema.ofJson choiceTree).allOf = none ∧
    (nodeIn entryDocument (Schema.ofJson (.object [("allOf", .list [choiceTree])]))).kind = .any ∧
    (nodeIn entryDocument (Schema.ofJson choiceTree)).kind =
      .oneOf [.ofKind (.string {}), .ofKind (.number {})] := by
  have hread : Schema.ofJson (.object [("allOf", .list [choiceTree])]) =
      (Schema.ofJson choiceTree).wrapped := rfl
  refine ⟨rfl, rfl, ?_, rfl⟩
  rw [hread, nodeIn, Schema.compose_wrapped _ (s := Schema.ofJson choiceTree) rfl rfl
    List.nodup_nil]
  rfl

end EndpointBindings
