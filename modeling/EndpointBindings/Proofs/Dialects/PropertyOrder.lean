import EndpointBindings.Proofs.Dialects.Modernize
import EndpointBindings.Proofs.Json.WellFormed

/-!
# Properties keep their order

A schema without its plain keywords is what is left of it when only names and places count: which
properties it lists and in which order, and which schemas stand below it (`Schema.bare`).  The
rewrite of a tree changes references and marks of null and takes keys out of objects, which moves
others; it does not change the bare schema that the tree is read as (`bare_modernize`), as long as
no property has the name that it takes for a mark.
-/

namespace EndpointBindings

open Ordered (keys get? mapValues)
open Swagger (modernize modernizeAt modernizeMembers renameNullable)

namespace Schema

mutual

/-- A schema without its plain keywords, at every depth. -/
def bare : Schema → Schema
  | ⟨_, properties, items, allOf, oneOf, anyOf⟩ =>
    ⟨{}, bareProperties properties, bareItems items, bareMembers allOf, bareMembers oneOf,
      bareMembers anyOf⟩

def bareProperties : Option (List (String × Schema)) → Option (List (String × Schema))
  | none => none
  | some ps => some (bareNamed ps)

def bareItems : Option Schema → Option Schema
  | none => none
  | some s => some s.bare

def bareMembers : Option (List Schema) → Option (List Schema)
  | none => none
  | some ss => some (bareList ss)

def bareNamed : List (String × Schema) → List (String × Schema)
  | [] => []
  | (name, s) :: ps => (name, s.bare) :: bareNamed ps

def bareList : List Schema → List Schema
  | [] => []
  | s :: ss => s.bare :: bareList ss

end

theorem bareNamed_eq (ps : List (String × Schema)) : bareNamed ps = mapValues bare ps := by
  induction ps with
  | nil => rfl
  | cons p ps ih =>
      obtain ⟨name, s⟩ := p
      rw [bareNamed, ih]
      rfl

theorem bareList_eq (ss : List Schema) : bareList ss = ss.map bare := by
  induction ss with
  | nil => rfl
  | cons s ss ih => rw [bareList, ih, List.map_cons]

theorem bare_eq (s : Schema) : s.bare =
    { properties := s.properties.map (mapValues bare)
      items := s.items.map bare
      allOf := s.allOf.map (List.map bare)
      oneOf := s.oneOf.map (List.map bare)
      anyOf := s.anyOf.map (List.map bare) } := by
  obtain ⟨f, properties, items, allOf, oneOf, anyOf⟩ := s
  have hproperties : bareProperties properties = properties.map (mapValues bare) := by
    cases properties with
    | none => rfl
    | some ps => exact congrArg some (bareNamed_eq ps)
  have hitems : bareItems items = items.map bare := by
    cases items <;> rfl
  have hmembers : ∀ ss, bareMembers ss = ss.map (List.map bare) := by
    intro ss
    cases ss with
    | none => rfl
    | some ss => exact congrArg some (bareList_eq ss)
  rw [bare, hproperties, hitems, hmembers, hmembers, hmembers]

/-! ## Read from a tree -/

/-- The keywords that hold schemas. -/
def slotKeys : List String := ["properties", "items", "allOf", "oneOf", "anyOf"]

/-- Members with the same values at these keywords are read as the same bare schema. -/
theorem bare_congr {ms ns : List (String × Json)}
    (h : ∀ key ∈ slotKeys, get? ms key = get? ns key) :
    (ofMembers ms).bare = (ofMembers ns).bare := by
  rw [bare_eq, bare_eq, ofMembers_eq, ofMembers_eq]
  simp only [slotKeys, List.mem_cons, List.not_mem_nil, or_false, forall_eq_or_imp, forall_eq] at h
  obtain ⟨hproperties, hitems, hallOf, honeOf, hanyOf⟩ := h
  simp only [hproperties, hitems, hallOf, honeOf, hanyOf]

end Schema

/-! ## After the rewrite -/

/-- No property is named as the mark of null in Swagger 2. -/
def PlainProperties (v : Json) : Prop :=
  ∀ w : Json, w.StandsIn v → ∀ ps, w.get? "properties" = some (.object ps) → "x-nullable" ∉ keys ps

theorem PlainProperties.of_standsIn {v w : Json} (h : PlainProperties v) (hw : w.StandsIn v) :
    PlainProperties w := fun u hu => h u (hu.trans hw)

@[simp] theorem plainProperties_object_iff {ms : List (String × Json)} :
    PlainProperties (.object ms) ↔
      (∀ ps, get? ms "properties" = some (.object ps) → "x-nullable" ∉ keys ps) ∧
        ∀ e ∈ ms, PlainProperties e.2 := by
  constructor
  · intro h
    exact ⟨h _ .whole, fun e he => h.of_standsIn (.member he .whole)⟩
  · rintro ⟨hown, hmembers⟩ w hw ps hps
    cases hw with
    | whole => exact hown ps hps
    | member hm hw => exact hmembers _ hm w hw ps hps

@[simp] theorem plainProperties_list_iff {xs : List Json} :
    PlainProperties (.list xs) ↔ ∀ x ∈ xs, PlainProperties x := by
  constructor
  · intro h x hx
    exact h.of_standsIn (.item hx .whole)
  · intro h w hw ps hps
    cases hw with
    | whole => cases hps
    | item hx hw => exact h _ hx w hw ps hps

@[simp] theorem plainProperties_string (s : String) : PlainProperties (.string s) := by
  intro w hw ps hps
  cases hw
  cases hps

open Schema (bare ofJson ofMembers namedSchemas? slot? listed?)

/-- The rewrite at a keyword that holds schemas. -/
theorem get?_rewritten {ms : List (String × Json)} (hnodup : (keys ms).Nodup) {key : String}
    (hkey : key ∉ ["$ref", "x-nullable", "nullable"]) :
    get? (renameNullable (modernizeMembers ms)) key = (get? ms key).map modernize := by
  simp only [List.mem_cons, List.not_mem_nil, or_false, not_or] at hkey
  rw [Swagger.get?_renameNullable (by rwa [Swagger.keys_modernizeMembers]), if_neg hkey.2.2,
    if_neg hkey.2.1, Swagger.get?_modernizeMembers]
  exact congrArg (Option.map · _) (funext (Swagger.modernizeAt_of_ne hkey.1))

theorem ofJson_modernizeAt (key : String) (v : Json) :
    ofJson (modernizeAt key v) = ofJson (modernize v) := by
  cases v with
  | string s =>
      rw [modernizeAt]
      split <;> rfl
  | null | bool _ | number _ | list _ | object _ => rfl

/-- One keyword of a rewritten object, read as before up to a function of what is read. -/
theorem map_read_rewritten {α β : Type} {ms : List (String × Json)} (hnodup : (keys ms).Nodup)
    {key : String} (hkey : key ∉ ["$ref", "x-nullable", "nullable"]) {read : Json → Option α}
    {f : α → β} (h : ∀ u, (key, u) ∈ ms → (read (modernize u)).map f = (read u).map f) :
    ((get? (renameNullable (modernizeMembers ms)) key).bind read).map f =
      ((get? ms key).bind read).map f := by
  rw [get?_rewritten hnodup hkey]
  cases hu : get? ms key with
  | none => rfl
  | some u => exact h u (Ordered.mem_of_get? hu)

section slots

variable {v : Json} (hpart : ∀ w, w.StandsIn v → (ofJson (modernize w)).bare = (ofJson w).bare)

include hpart

theorem slot?_rewritten : (slot? (modernize v)).map bare = (slot? v).map bare := by
  have hv := hpart v .whole
  cases v with
  | object ms => exact congrArg some hv
  | null | bool _ | number _ | string _ | list _ => rfl

theorem listed?_rewritten :
    (listed? (modernize v)).map (List.map bare) = (listed? v).map (List.map bare) := by
  cases v with
  | list xs =>
      show some ((Schema.ofItems (Swagger.modernizeItems xs)).map bare) =
        some ((Schema.ofItems xs).map bare)
      rw [Swagger.modernizeItems_eq, Schema.ofItems_eq_map, Schema.ofItems_eq_map, List.map_map,
        List.map_map, List.map_map]
      exact congrArg some (List.map_congr_left fun x hx => hpart x (.item hx .whole))
  | null | bool _ | number _ | string _ | object _ => rfl

theorem namedSchemas?_rewritten (hnull : ∀ ps, v = .object ps → "x-nullable" ∉ keys ps) :
    (namedSchemas? (modernize v)).map (mapValues bare) =
      (namedSchemas? v).map (mapValues bare) := by
  cases v with
  | object ps =>
      have hkept : renameNullable (modernizeMembers ps) = modernizeMembers ps :=
        Swagger.renameNullable_of_not_mem (by
          rw [Swagger.keys_modernizeMembers]
          exact hnull ps rfl)
      show some (mapValues bare (Schema.ofNamed (renameNullable (modernizeMembers ps)))) =
        some (mapValues bare (Schema.ofNamed ps))
      rw [hkept, Swagger.modernizeMembers_eq, Schema.ofNamed_eq_map, Schema.ofNamed_eq_map]
      simp only [mapValues, List.map_map]
      refine congrArg some (List.map_congr_left fun e he => ?_)
      show (e.1, (ofJson (modernizeAt e.1 e.2)).bare) = (e.1, (ofJson e.2).bare)
      rw [ofJson_modernizeAt, hpart e.2 (.member he .whole)]
  | null | bool _ | number _ | string _ | list _ => rfl

end slots

/-- **The rewrite keeps the order of properties**, at every depth. -/
theorem bare_modernize {v : Json} (hv : v.WellFormed) (hplain : PlainProperties v) :
    (ofJson (modernize v)).bare = (ofJson v).bare := by
  cases v with
  | object ms =>
      obtain ⟨hnodup, -⟩ := Json.wellFormed_object_iff.1 hv
      have hpart : ∀ {key u}, (key, u) ∈ ms → ∀ w, w.StandsIn u →
          (ofJson (modernize w)).bare = (ofJson w).bare := by
        intro key u hu w hw
        have hin : w.StandsIn (.object ms) := .member hu hw
        have hdepth : w.depth < (Json.object ms).depth :=
          Nat.lt_of_le_of_lt hw.partOf.depth_le (Json.depth_lt_of_mem_members hu)
        exact bare_modernize (hv.of_standsIn hin) (hplain.of_standsIn hin)
      have hnames : ∀ u, ("properties", u) ∈ ms → ∀ ps, u = .object ps →
          "x-nullable" ∉ keys ps := by
        rintro u hu ps rfl
        exact hplain (.object ms) .whole ps (Ordered.get?_of_mem hnodup hu)
      show (ofMembers (renameNullable (modernizeMembers ms))).bare = (ofMembers ms).bare
      rw [Schema.bare_eq, Schema.bare_eq, Schema.ofMembers_eq, Schema.ofMembers_eq]
      simp only
      rw [map_read_rewritten hnodup (by decide) fun u hu =>
          namedSchemas?_rewritten (hpart hu) (hnames u hu),
        map_read_rewritten hnodup (by decide) fun u hu => slot?_rewritten (hpart hu),
        map_read_rewritten hnodup (by decide) fun u hu => listed?_rewritten (hpart hu),
        map_read_rewritten hnodup (by decide) fun u hu => listed?_rewritten (hpart hu),
        map_read_rewritten hnodup (by decide) fun u hu => listed?_rewritten (hpart hu)]
  | null | bool _ | number _ | string _ | list _ => rfl
termination_by v.depth

end EndpointBindings
