import EndpointBindings.Proofs.Schema.Keywords
import EndpointBindings.Proofs.Tables.Related
import EndpointBindings.Swagger.Conversion

/-!
# The rewrite of a whole tree, seen from one object

`modernize` goes through a tree and puts references and marks of null right wherever they stand.
Here is what it does to the members of one object: every value is rewritten by itself
(`modernizeMembers_eq`), and then `nullable` holds what `x-nullable` held, the other keys what they
held before (`get?_renameNullable`).  The order that taking a key out leaves is not seen by anything
that looks keys up.
-/

namespace EndpointBindings.Swagger

open Ordered (keys get?)

/-- A value at a key: what a reference is written as is rewritten, and anything else goes through
the rewrite of trees. -/
def modernizeAt (key : String) (v : Json) : Json :=
  match v with
  | .string target => if key = "$ref" then .string (modernizeRef target) else v
  | v => modernize v

/-! ## References -/

/-- A reference is moved out of one of the sections, or leads into none of them and stays. -/
theorem modernizeRef_cases (target : String) :
    (∃ place ∈ sections, ∃ rest, target = place.1 ++ rest ∧ modernizeRef target = place.2 ++ rest) ∨
      (∀ place ∈ sections, ¬ place.1.toList <+: target.toList) ∧ modernizeRef target = target := by
  let move (place : String × String) : Option String :=
    (Text.dropPrefix? place.1 target).map (place.2 ++ ·)
  have hmodernize : modernizeRef target = (sections.findSome? move).getD target := rfl
  rw [hmodernize]
  cases hmoved : sections.findSome? move with
  | some moved =>
      obtain ⟨place, hplace, hmove⟩ := List.exists_of_findSome?_eq_some hmoved
      obtain ⟨rest, hrest, rfl⟩ := Option.map_eq_some_iff.1 hmove
      exact .inl ⟨place, hplace, rest, Text.dropPrefix?_eq_some_iff.1 hrest, rfl⟩
  | none =>
      refine .inr ⟨fun place hplace => ?_, rfl⟩
      have hstays := Option.map_eq_none_iff.1 (List.findSome?_eq_none_iff.1 hmoved place hplace)
      rintro ⟨rest, hrest⟩
      rw [Text.dropPrefix?, ← hrest, Text.afterPrefix?_append] at hstays
      cases hstays

/-- The new places are in none of the old sections. -/
theorem not_prefix_section (target : String) :
    ∀ place ∈ sections, ¬ place.1.toList <+: (modernizeRef target).toList := by
  rcases modernizeRef_cases target with ⟨place, hplace, rest, -, h⟩ | ⟨hnone, h⟩
  · rw [h, String.toList_append]
    simp only [sections, List.mem_cons, List.not_mem_nil, or_false] at hplace
    rcases hplace with rfl | rfl | rfl <;> simp [sections, List.cons_prefix_cons]
  · rw [h]
    exact hnone

/-! ## One object -/

theorem modernizeItems_eq (xs : List Json) : modernizeItems xs = xs.map modernize := by
  induction xs with
  | nil => rfl
  | cons x xs ih => rw [modernizeItems, ih, List.map_cons]

theorem modernizeMembers_eq (ms : List (String × Json)) :
    modernizeMembers ms = ms.map fun e => (e.1, modernizeAt e.1 e.2) := by
  induction ms with
  | nil => rfl
  | cons e ms ih =>
      obtain ⟨key, v⟩ := e
      rw [List.map_cons, ← ih]
      cases v <;> rfl

theorem modernizeAt_of_ne {key : String} (h : key ≠ "$ref") (v : Json) :
    modernizeAt key v = modernize v := by
  cases v with
  | string target => exact if_neg h
  | null | bool _ | number _ | list _ | object _ => rfl

theorem keys_modernizeMembers (ms : List (String × Json)) :
    keys (modernizeMembers ms) = keys ms := by
  rw [modernizeMembers_eq, keys, keys, List.map_map]
  rfl

theorem get?_modernizeMembers (ms : List (String × Json)) (key : String) :
    get? (modernizeMembers ms) key = (get? ms key).map (modernizeAt key) := by
  rw [modernizeMembers_eq]
  induction ms with
  | nil => rfl
  | cons e ms ih =>
      rw [List.map_cons, Ordered.get?_cons, Ordered.get?_cons, ih]
      by_cases h : e.1 = key
      · rw [if_pos h, if_pos h, Option.map_some, h]
      · rw [if_neg h, if_neg h]

/-! ## Marks of null -/

theorem renameNullable_of_not_mem {ms : List (String × Json)} (h : "x-nullable" ∉ keys ms) :
    renameNullable ms = ms := by
  rw [renameNullable, Ordered.get?_eq_none_iff.2 h]

/-- Among members with each key once, `nullable` holds what `x-nullable` held, if it was there. -/
theorem get?_renameNullable {ms : List (String × Json)} (hnodup : (keys ms).Nodup) (key : String) :
    get? (renameNullable ms) key =
      if key = "nullable" then (get? ms "x-nullable").or (get? ms "nullable")
      else if key = "x-nullable" then none
      else get? ms key := by
  rw [renameNullable]
  cases hx : get? ms "x-nullable" with
  | none =>
      show get? ms key = _
      split
      · next h => rw [h, Option.none_or]
      · split
        · next h => rw [h, hx]
        · rfl
  | some v =>
      show get? (Ordered.put (Ordered.swapErase ms "x-nullable") "nullable" v) key = _
      rw [Ordered.get?_put, Ordered.get?_swapErase hnodup]
      by_cases h : key = "nullable"
      · simp [h]
      · by_cases h' : key = "x-nullable"
        · simp [h']
        · simp [h, h', Ne.symm h, Ne.symm h']

/-- Related members stay so. -/
theorem renameNullable_rel {S : String × Json → String × Json → Prop}
    (hx : Ordered.Keeps S "x-nullable") (hn : Ordered.Keeps S "nullable")
    (hS : ∀ v w, S ("x-nullable", v) ("x-nullable", w) → S ("nullable", v) ("nullable", w))
    {ms ns : List (String × Json)} (h : List.Forall₂ S ms ns) :
    List.Forall₂ S (renameNullable ms) (renameNullable ns) := by
  have hmark := Ordered.get?_rel hx h
  rw [renameNullable, renameNullable]
  generalize get? ms "x-nullable" = mark, get? ns "x-nullable" = mark' at hmark ⊢
  cases hmark with
  | none => exact h
  | some hvw => exact Ordered.put_rel hn (Ordered.swapErase_rel hx h) (hS _ _ hvw)

/-- A table without `x-nullable` and without references of its own is rewritten value by value. -/
theorem modernize_table {ms : List (String × Json)} (hnull : "x-nullable" ∉ keys ms)
    (href : ∀ key v, (key, v) ∈ ms → modernizeAt key v = modernize v) :
    modernize (.object ms) = .object (Ordered.mapValues modernize ms) := by
  have hms : modernizeMembers ms = Ordered.mapValues modernize ms := by
    rw [modernizeMembers_eq]
    exact List.map_congr_left fun e he => congrArg (e.1, ·) (href e.1 e.2 he)
  rw [modernize, renameNullable_of_not_mem (by rwa [keys_modernizeMembers]), hms]

/-- So is an object that has neither of the two keys. -/
theorem modernize_of_not_mem {ms : List (String × Json)} (hnull : "x-nullable" ∉ keys ms)
    (href : "$ref" ∉ keys ms) :
    modernize (.object ms) = .object (Ordered.mapValues modernize ms) := by
  refine modernize_table hnull fun key v he => modernizeAt_of_ne ?_ v
  rintro rfl
  exact href (Ordered.mem_keys_of_mem he)

end EndpointBindings.Swagger
