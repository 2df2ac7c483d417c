import EndpointBindings.Proofs.Json.Parts
import EndpointBindings.Proofs.Schema.Fields
import EndpointBindings.Schema.Basic

/-!
# Reading a schema that was written

A schema is written as one member for each field that is present (`Schema.toJson_eq`).  Reading that
object gives each field what its own member says, so the schema comes back when each of its fields
does (`Schema.readsBack_of_fields`).

A field does not always come back: a `default` that is null is written as null, and null says that
there is no default.  No such field is ever read, at any depth, and so every schema that was read
comes back (`Schema.readsBack_ofJson`).  Absent stays apart from empty all the way: an absent field
has no member, an empty list or table has one.
-/

namespace EndpointBindings

open Ordered (get? get?_append mapValues)

/-- The writer of a shape. -/
def Shape.write : (shape : Shape) → shape.Value → Json
  | typeNames => TypeNames.toJson
  | text => Json.string
  | texts => Json.ofStrings
  | values => Json.list
  | truth => Json.bool
  | number => Json.number
  | length => Json.ofNat
  | given => id
  | slot => Schema.toJson
  | slots => fun ss => .list (Schema.listToJson ss)
  | namedSlots => fun ps => .object (Schema.namedToJson ps)

namespace Schema

/-! ## What is written -/

theorem listToJson_eq_map (ss : List Schema) : listToJson ss = ss.map toJson := by
  induction ss with
  | nil => rfl
  | cons s ss ih => rw [listToJson, ih, List.map_cons]

theorem namedToJson_eq_mapValues (ps : List (String × Schema)) :
    namedToJson ps = mapValues toJson ps := by
  induction ps with
  | nil => rfl
  | cons p ps ih =>
      obtain ⟨name, s⟩ := p
      rw [namedToJson, ih]
      rfl

/-- The members that some keywords are written as. -/
def membersFor (s : Schema) (ks : List Keyword) : List (String × Json) :=
  ks.flatMap fun k => memberOf k.key k.shape.write (s.field k)

/-- **A schema is written as the members of all keywords.** -/
theorem toJson_eq (s : Schema) : s.toJson = .object (s.membersFor Keyword.all) := by
  obtain ⟨f, properties, items, allOf, oneOf, anyOf⟩ := s
  have hproperties : propertiesMember properties =
      memberOf "properties" (Shape.write .namedSlots) properties := by
    cases properties <;> rfl
  have hitems : itemsMember items = memberOf "items" (Shape.write .slot) items := by
    cases items <;> rfl
  have hlist : ∀ (key : String) (ss : Option (List Schema)),
      listMember key ss = memberOf key (Shape.write .slots) ss := by
    intro key ss
    cases ss <;> rfl
  rw [toJson, hproperties, hitems, hlist, hlist, hlist]
  simp only [membersFor, Keyword.all, List.flatMap_cons, List.flatMap_nil, List.append_nil,
    List.append_assoc]
  rfl

/-- A keyword is written under its own key alone. -/
theorem get?_memberOf (s : Schema) (k k' : Keyword) :
    get? (memberOf k'.key k'.shape.write (s.field k')) k.key =
      if k' = k then (s.field k).map k.shape.write else none := by
  by_cases hk : k' = k
  · subst hk
    rw [if_pos rfl]
    cases s.field k' with
    | none => rfl
    | some a => exact if_pos rfl
  · rw [if_neg hk]
    cases s.field k' with
    | none => rfl
    | some a => exact if_neg fun h => hk (Keyword.key_injective h)

theorem get?_membersFor (s : Schema) (k : Keyword) (ks : List Keyword) :
    get? (s.membersFor ks) k.key = if k ∈ ks then (s.field k).map k.shape.write else none := by
  induction ks with
  | nil => rfl
  | cons k' ks ih =>
      rw [membersFor, List.flatMap_cons, get?_append, get?_memberOf]
      show Option.or _ (get? (s.membersFor ks) k.key) = _
      rw [ih]
      by_cases hk : k' = k
      · subst hk
        rw [if_pos rfl, if_pos List.mem_cons_self]
        cases s.field k' with
        | none => rw [Option.map_none, Option.none_or, ite_self]
        | some a => rfl
      · rw [if_neg hk, Option.none_or]
        refine if_congr ?_ rfl rfl
        rw [List.mem_cons, or_iff_right (Ne.symm hk)]

/-! ## Reading it again -/

/-- Written and read again, the schema is the same. -/
def ReadsBack (s : Schema) : Prop := ofJson s.toJson = s

/-- A field is read again from what was written for it. -/
theorem field_ofJson_toJson (s : Schema) (k : Keyword) :
    (ofJson s.toJson).field k = (s.field k).bind fun a => k.shape.read (k.shape.write a) := by
  rw [toJson_eq, field_ofJson, get?_membersFor, if_pos (Keyword.mem_all k), Option.bind_map]
  rfl

theorem readsBack_of_fields {s : Schema}
    (h : ∀ k a, s.field k = some a → k.shape.read (k.shape.write a) = some a) : s.ReadsBack := by
  refine ext_field fun k => ?_
  rw [field_ofJson_toJson]
  cases ha : s.field k with
  | none => rfl
  | some a => exact h k a ha

theorem slot?_toJson (s : Schema) : slot? s.toJson = some (ofJson s.toJson) := by
  rw [toJson_eq]
  rfl

theorem listed?_toJson {ss : List Schema} (h : ∀ s ∈ ss, s.ReadsBack) :
    listed? (.list (listToJson ss)) = some ss := by
  refine congrArg some ?_
  rw [ofItems_eq_map, listToJson_eq_map, List.map_map]
  exact (List.map_congr_left h).trans (List.map_id' ss)

theorem namedSchemas?_toJson {ps : List (String × Schema)} (h : ∀ p ∈ ps, p.2.ReadsBack) :
    namedSchemas? (.object (namedToJson ps)) = some ps := by
  refine congrArg some ?_
  rw [ofNamed_eq_map, namedToJson_eq_mapValues, mapValues, mapValues, List.map_map]
  refine (List.map_congr_left fun p hp => ?_).trans (List.map_id' ps)
  exact congrArg (p.1, ·) (h p hp)

end Schema

/-- What a value says comes back, when the schemas do that are read inside the value. -/
theorem Shape.read_write {shape : Shape} {v : Json} {a : shape.Value} (h : shape.Says v a)
    (hinside : ∀ w, w.StandsIn v → (Schema.ofJson w).ReadsBack) :
    shape.read (shape.write a) = some a := by
  cases h with
  | typeName _ | text _ | values _ | truth _ | number _ | length _ => rfl
  | typeNames names => exact Shape.read_of_says (.typeNames names)
  | texts ss => exact Shape.read_of_says (.texts ss)
  | given hv => exact Shape.read_of_says (.given hv)
  | slot hv => exact (Schema.slot?_toJson _).trans (congrArg some (hinside v .whole))
  | slots xs =>
      refine Schema.listed?_toJson fun s hs => ?_
      obtain ⟨x, hx, rfl⟩ := List.mem_map.1 hs
      exact hinside x (.item hx .whole)
  | namedSlots ms =>
      refine Schema.namedSchemas?_toJson fun p hp => ?_
      obtain ⟨m, hm, rfl⟩ := List.mem_map.1 hp
      exact hinside m.2 (.member hm .whole)

/-- **Every schema that was read comes back.** -/
theorem Schema.readsBack_ofJson (v : Json) : (ofJson v).ReadsBack := by
  -- what stands under a keyword is less deep than the object that holds it
  induction hdepth : v.depth using Nat.strongRecOn generalizing v with
  | _ n ih =>
      cases v with
      | object ms =>
          refine readsBack_of_fields fun k a ha => ?_
          obtain ⟨w, hw, hsays⟩ := field_eq_some_iff.1 ha
          refine Shape.read_write hsays fun u hu => ih u.depth ?_ u rfl
          rw [← hdepth]
          exact Nat.lt_of_le_of_lt hu.partOf.depth_le
            (Json.depth_lt_of_mem_members (Ordered.mem_of_get? hw))
      | null | bool _ | number _ | string _ | list _ => rfl

end EndpointBindings
