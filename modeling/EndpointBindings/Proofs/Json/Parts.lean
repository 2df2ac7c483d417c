import EndpointBindings.Json.Basic
import EndpointBindings.Json.Pointer
import EndpointBindings.Proofs.Tables

/-!
# Parts of a tree

A value inside an object or a list is less deep than the whole and holds no reference that the whole
does not hold, and so it is with every part that a pointer leads to, except that a pointer may lead
to the whole.
-/

namespace EndpointBindings.Json

/-! ## One step down -/

theorem depth_lt_of_mem {x : Json} {xs : List Json} (h : x ∈ xs) : x.depth < (list xs).depth := by
  show x.depth < depthOfItems xs + 1
  induction xs with
  | nil => exact absurd h List.not_mem_nil
  | cons y ys ih =>
      rw [depthOfItems]
      rcases List.mem_cons.1 h with rfl | h
      · omega
      · have := ih h
        omega

theorem depth_lt_of_mem_members {key : String} {v : Json} {ms : List (String × Json)}
    (h : (key, v) ∈ ms) : v.depth < (object ms).depth := by
  show v.depth < depthOfMembers ms + 1
  induction ms with
  | nil => exact absurd h List.not_mem_nil
  | cons e es ih =>
      obtain ⟨key', w⟩ := e
      rw [depthOfMembers]
      rcases List.mem_cons.1 h with h | h
      · cases h
        omega
      · have := ih h
        omega

theorem references_subset_of_mem {x : Json} {xs : List Json} (h : x ∈ xs) :
    x.references ⊆ (list xs).references := by
  show x.references ⊆ referencesOfItems xs
  induction xs with
  | nil => exact absurd h List.not_mem_nil
  | cons y ys ih =>
      rw [referencesOfItems]
      rcases List.mem_cons.1 h with rfl | h
      · exact List.subset_append_left ..
      · exact List.Subset.trans (ih h) (List.subset_append_right ..)

theorem references_subset_of_mem_members {key : String} {v : Json} {ms : List (String × Json)}
    (h : (key, v) ∈ ms) : v.references ⊆ (object ms).references := by
  show v.references ⊆ referencesOfMembers ms
  induction ms with
  | nil => exact absurd h List.not_mem_nil
  | cons e es ih =>
      obtain ⟨key', w⟩ := e
      unfold referencesOfMembers
      rcases List.mem_cons.1 h with h | h
      · cases h
        exact List.Subset.trans (List.subset_append_right ..) (List.subset_append_left ..)
      · exact List.Subset.trans (ih h) (List.subset_append_right ..)

/-- A string under `$ref` is one of the references. -/
theorem mem_references_of_mem {target : String} {ms : List (String × Json)}
    (h : ("$ref", string target) ∈ ms) : target ∈ (object ms).references := by
  show target ∈ referencesOfMembers ms
  induction ms with
  | nil => exact absurd h List.not_mem_nil
  | cons e es ih =>
      obtain ⟨key', w⟩ := e
      unfold referencesOfMembers
      rcases List.mem_cons.1 h with h | h
      · cases h
        simp
      · exact List.mem_append_right _ (ih h)

/-! ## Many steps down -/

/-- A part is no deeper than the whole, and its references are references of the whole. -/
structure PartOf (v root : Json) : Prop where
  depth_le : v.depth ≤ root.depth
  references_subset : v.references ⊆ root.references

theorem PartOf.refl (v : Json) : v.PartOf v := ⟨Nat.le_refl _, List.Subset.refl _⟩

theorem PartOf.trans {u v w : Json} (h : u.PartOf v) (h' : v.PartOf w) : u.PartOf w :=
  ⟨Nat.le_trans h.depth_le h'.depth_le,
    List.Subset.trans h.references_subset h'.references_subset⟩

theorem PartOf.of_mem {x : Json} {xs : List Json} (h : x ∈ xs) : x.PartOf (list xs) :=
  ⟨Nat.le_of_lt (depth_lt_of_mem h), references_subset_of_mem h⟩

theorem PartOf.of_mem_members {key : String} {v : Json} {ms : List (String × Json)}
    (h : (key, v) ∈ ms) : v.PartOf (object ms) :=
  ⟨Nat.le_of_lt (depth_lt_of_mem_members h), references_subset_of_mem_members h⟩

theorem partOf_of_child? {v w : Json} {segment : String} (h : v.child? segment = some w) :
    w.PartOf v := by
  cases v with
  | object ms => exact .of_mem_members (Ordered.mem_of_get? h)
  | list xs =>
      obtain ⟨n, -, hn⟩ := Option.bind_eq_some_iff.1 h
      exact .of_mem (List.mem_of_getElem? hn)
  | null | bool _ | number _ | string _ => cases h

theorem partOf_of_walk? {v w : Json} {segments : List String} (h : v.walk? segments = some w) :
    w.PartOf v := by
  induction segments generalizing v with
  | nil => cases h; exact .refl _
  | cons s ss ih =>
      obtain ⟨u, hu, hw⟩ := Option.bind_eq_some_iff.1 h
      exact (ih hw).trans (partOf_of_child? hu)

/-- What a reference leads to is a part of the tree. -/
theorem partOf_of_follow? {root w : Json} {reference : String}
    (h : root.follow? reference = some w) : w.PartOf root := by
  obtain ⟨segments, -, hw⟩ := Option.bind_eq_some_iff.1 h
  exact partOf_of_walk? hw

/-! ## Anywhere inside -/

/-- A tree stands in another: it is the other itself, or stands in an item or the value of a
member. -/
inductive StandsIn (w : Json) : Json → Prop
  | whole : StandsIn w w
  | item {x : Json} {xs : List Json} (hx : x ∈ xs) (h : StandsIn w x) : StandsIn w (list xs)
  | member {v : Json} {key : String} {ms : List (String × Json)} (hv : (key, v) ∈ ms)
      (h : StandsIn w v) : StandsIn w (object ms)

theorem StandsIn.trans {u v w : Json} (h : u.StandsIn v) (h' : v.StandsIn w) : u.StandsIn w := by
  induction h' with
  | whole => exact h
  | item hx _ ih => exact .item hx ih
  | member hv _ ih => exact .member hv ih

theorem StandsIn.partOf {v w : Json} (h : w.StandsIn v) : w.PartOf v := by
  induction h with
  | whole => exact .refl w
  | item hx _ ih => exact ih.trans (.of_mem hx)
  | member hv _ ih => exact ih.trans (.of_mem_members hv)

end Json

end EndpointBindings
