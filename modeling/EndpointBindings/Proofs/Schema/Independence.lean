import EndpointBindings.Proofs.Schema.Fields

/-!
# Keywords are read independently

A field of a schema is what the value under its own keyword says, whatever stands under the others
(`Schema.field_eq_some_iff`).  So a keyword that is set, removed or spoilt is seen at its own field
alone, keys that are no keywords are not seen at all, and neither is the order of the keys.

It is so at every depth.  A schema stands in a slot of another one, and what is read at the end of a
way through slots is read from what the tree holds there (`Schema.slotAt?_ofJson`).  A schema without
any field is therefore only ever read from a value in which no keyword says anything: one bad keyword
takes nothing else with it.
-/

namespace EndpointBindings

open Ordered (get? put swapErase keys get?_put get?_swapErase get?_perm)

namespace Schema

/-! ## One object -/

/-- Objects that hold the same under a keyword have the same field there. -/
theorem field_congr {ms ns : List (String × Json)} {k : Keyword}
    (h : get? ms k.key = get? ns k.key) :
    (ofJson (.object ms)).field k = (ofJson (.object ns)).field k := by
  rw [field_ofJson, field_ofJson, h]

/-- Objects that hold the same under all keywords are read alike. -/
theorem ofJson_congr {ms ns : List (String × Json)}
    (h : ∀ k : Keyword, get? ms k.key = get? ns k.key) :
    ofJson (.object ms) = ofJson (.object ns) :=
  ext_field fun k => field_congr (h k)

/-- The schemas have the same fields, except at a keyword. -/
def SameBut (k : Keyword) (s t : Schema) : Prop := ∀ k', k' ≠ k → s.field k' = t.field k'

/-- No keyword of an object says anything: each is absent or has a value of another shape. -/
def NothingSaid (ms : List (String × Json)) : Prop :=
  ∀ (k : Keyword) (w : Json), get? ms k.key = some w → ∀ a, ¬ k.shape.Says w a

/-- The empty schema is read exactly where no keyword says anything. -/
theorem ofJson_eq_empty_iff {ms : List (String × Json)} :
    ofJson (.object ms) = {} ↔ NothingSaid ms := by
  constructor
  · intro h k w hw a ha
    have hfield := field_eq_some_iff.2 ⟨w, hw, ha⟩
    rw [h, field_empty] at hfield
    cases hfield
  · intro h
    refine ext_field fun k => ?_
    rw [field_empty, Option.eq_none_iff_forall_ne_some]
    intro a ha
    obtain ⟨w, hw, hsays⟩ := field_eq_some_iff.1 ha
    exact h k w hw a hsays

end Schema

/-! ## Slots below slots -/

/-- A step from a schema to one that stands in it. -/
inductive SlotStep where
  | property (name : String)
  | items
  | allOf (i : Nat)
  | oneOf (i : Nat)
  | anyOf (i : Nat)
deriving DecidableEq, Repr

namespace SlotStep

/-- The value in the slot of a tree. -/
def inTree : SlotStep → Json → Option Json
  | property name, v => (v.get? "properties").bind (·.get? name)
  | items, v => (v.get? "items").bind Json.nonNull?
  | allOf i, v => ((v.get? "allOf").bind Json.list?).bind (·[i]?)
  | oneOf i, v => ((v.get? "oneOf").bind Json.list?).bind (·[i]?)
  | anyOf i, v => ((v.get? "anyOf").bind Json.list?).bind (·[i]?)

/-- The schema in the slot of a schema. -/
def inSchema : SlotStep → Schema → Option Schema
  | property name, s => s.properties.bind (get? · name)
  | items, s => s.items
  | allOf i, s => s.allOf.bind (·[i]?)
  | oneOf i, s => s.oneOf.bind (·[i]?)
  | anyOf i, s => s.anyOf.bind (·[i]?)

theorem listed?_bind (v : Option Json) (i : Nat) :
    (v.bind Schema.listed?).bind (·[i]?) =
      ((v.bind Json.list?).bind (·[i]?)).map Schema.ofJson := by
  cases v with
  | none => rfl
  | some v =>
      cases v with
      | list xs =>
          show (Schema.ofItems xs)[i]? = xs[i]?.map Schema.ofJson
          rw [Schema.ofItems_eq_map, List.getElem?_map]
      | null | bool _ | number _ | string _ | object _ => rfl

/-- One step down, the schema is read from the value. -/
theorem inSchema_ofJson (step : SlotStep) (v : Json) :
    step.inSchema (Schema.ofJson v) = (step.inTree v).map Schema.ofJson := by
  cases v with
  | object ms =>
      cases step with
      | property name =>
          show ((Schema.ofMembers ms).properties).bind (get? · name) =
            ((get? ms "properties").bind (·.get? name)).map Schema.ofJson
          rw [Schema.ofMembers_eq]
          cases get? ms "properties" with
          | none => rfl
          | some ps =>
              cases ps with
              | object ps =>
                  show get? (Schema.ofNamed ps) name = (get? ps name).map Schema.ofJson
                  rw [Schema.ofNamed_eq_map, Ordered.get?_mapValues]
              | null | bool _ | number _ | string _ | list _ => rfl
      | items =>
          show (Schema.ofMembers ms).items = ((get? ms "items").bind Json.nonNull?).map Schema.ofJson
          rw [Schema.ofMembers_eq]
          cases get? ms "items" with
          | none => rfl
          | some w => cases w <;> rfl
      | allOf i | oneOf i | anyOf i =>
          rw [Schema.ofJson, Schema.ofMembers_eq]
          exact listed?_bind _ i
  | null | bool _ | number _ | string _ | list _ => cases step <;> rfl

end SlotStep

/-- The value at the end of a way through slots. -/
def Json.slotAt? (v : Json) (way : List SlotStep) : Option Json :=
  way.foldlM (fun v step => step.inTree v) v

/-- The schema at the end of a way through slots. -/
def Schema.slotAt? (s : Schema) (way : List SlotStep) : Option Schema :=
  way.foldlM (fun s step => step.inSchema s) s

/-- **At every depth a schema is read from what the tree holds there.** -/
theorem Schema.slotAt?_ofJson (v : Json) (way : List SlotStep) :
    (ofJson v).slotAt? way = (v.slotAt? way).map ofJson := by
  induction way generalizing v with
  | nil => rfl
  | cons step way ih =>
      rw [Schema.slotAt?, Json.slotAt?, List.foldlM_cons, List.foldlM_cons, step.inSchema_ofJson]
      cases step.inTree v with
      | none => rfl
      | some w => exact ih w

/-! ## The theorem -/

/-- **Keywords are read independently.**  In an object with each key once, a keyword that is set says
what its value says, a keyword that is removed says nothing, and every other keyword says what it
did.  Keys that are no keywords make no difference, and the order of the keys makes none.  So it is
wherever a schema stands: each field of the schema in a slot is what the value under its keyword
says, and the schema is empty only where no keyword says anything. -/
theorem keywords_independent {ms : List (String × Json)} (hnodup : (keys ms).Nodup) :
    (∀ (k : Keyword) (w : Json),
      (∀ a, (Schema.ofJson (.object (put ms k.key w))).field k = some a ↔ k.shape.Says w a) ∧
      (Schema.ofJson (.object (put ms k.key w))).SameBut k (Schema.ofJson (.object ms))) ∧
    (∀ k : Keyword,
      (Schema.ofJson (.object (swapErase ms k.key))).field k = none ∧
      (Schema.ofJson (.object (swapErase ms k.key))).SameBut k (Schema.ofJson (.object ms))) ∧
    (∀ key, (∀ k : Keyword, k.key ≠ key) →
      (∀ w, Schema.ofJson (.object (put ms key w)) = Schema.ofJson (.object ms)) ∧
      Schema.ofJson (.object (swapErase ms key)) = Schema.ofJson (.object ms)) ∧
    (∀ ns, ms.Perm ns → Schema.ofJson (.object ns) = Schema.ofJson (.object ms)) ∧
    ∀ v way, Json.slotAt? v way = some (.object ms) →
      ∃ s, (Schema.ofJson v).slotAt? way = some s ∧
        (∀ (k : Keyword) a, s.field k = some a ↔
          ∃ w, get? ms k.key = some w ∧ k.shape.Says w a) ∧
        (s = {} ↔ Schema.NothingSaid ms) := by
  refine ⟨?_, ?_, ?_, ?_, ?_⟩
  · intro k w
    refine ⟨fun a => ?_, fun k' hne => Schema.field_congr ?_⟩
    · rw [Schema.field_ofJson, get?_put, if_pos rfl]
      exact Shape.read_eq_some_iff
    · rw [get?_put, if_neg fun h => hne (Keyword.key_injective h).symm]
  · intro k
    refine ⟨?_, fun k' hne => Schema.field_congr ?_⟩
    · rw [Schema.field_ofJson, get?_swapErase hnodup, if_pos rfl]
      rfl
    · rw [get?_swapErase hnodup, if_neg fun h => hne (Keyword.key_injective h).symm]
  · intro key hkey
    refine ⟨fun w => Schema.ofJson_congr fun k => ?_, Schema.ofJson_congr fun k => ?_⟩
    · rw [get?_put, if_neg (hkey k).symm]
    · rw [get?_swapErase hnodup, if_neg (hkey k).symm]
  · intro ns hperm
    exact Schema.ofJson_congr fun k => (get?_perm hnodup hperm k.key).symm
  · intro v way hslot
    refine ⟨Schema.ofJson (.object ms), ?_, fun k a => Schema.field_eq_some_iff,
      Schema.ofJson_eq_empty_iff⟩
    rw [Schema.slotAt?_ofJson, hslot]
    rfl

/-! ### One bad keyword -/

/-- A schema with a length that is no number, and another key. -/
def memoMembers : List (String × Json) :=
  [("type", .string "string"), ("minLength", .string "five"), ("x-origin", .null)]

/-- Its type is read beside the bad keyword, also when a second one is spoilt and when the schema
stands below others. -/
theorem memo_keywords :
    (keys memoMembers).Nodup ∧
    (Schema.ofJson (.object (put memoMembers "enum" (.bool true)))).field .types =
      some (.single "string") ∧
    ∃ s, (Schema.ofJson (.object [("properties", .object [("memos",
        .object [("items", .object memoMembers)])])])).slotAt? [.property "memos", .items] = some s ∧
      s.field .types = some (.single "string") ∧ s.field .minLength = none ∧ s ≠ {} := by
  have hnodup : (keys memoMembers).Nodup := by decide
  have htype : (Schema.ofJson (.object memoMembers)).field .types = some (.single "string") := rfl
  obtain ⟨hset, -, -, -, hbelow⟩ := keywords_independent hnodup
  obtain ⟨-, hothers⟩ := hset .enumValues (.bool true)
  obtain ⟨s, hs, hfields, hempty⟩ := hbelow (.object [("properties", .object [("memos",
    .object [("items", .object memoMembers)])])]) [.property "memos", .items] rfl
  refine ⟨hnodup, (hothers .types (by decide)).trans htype, s, hs, ?_, ?_, ?_⟩
  · exact (hfields .types _).2 ⟨.string "string", rfl, .typeName "string"⟩
  · rw [Option.eq_none_iff_forall_ne_some]
    intro n hn
    obtain ⟨w, hw, hsays⟩ := (hfields .minLength n).1 hn
    cases hw
    cases hsays
  · intro h
    exact hempty.1 h .types (.string "string") rfl _ (.typeName "string")

end EndpointBindings
