import EndpointBindings.Proofs.Composition.Termination
import EndpointBindings.Route.Extract

/-!
# What a composition sees of a document

A composition looks at a document only through the references that it follows.  Documents in which
these lead to the same schemas, and those schemas again to the same, compose a schema alike
(`Schema.compose_congr`).  That is so when every reference of one of the documents leads to the same
tree in the other, whatever else the two trees say (`nodeIn_congr_of_references`).
-/

namespace EndpointBindings

namespace Schema

theorem foldlM_congr {α β : Type} {f g : β → α → Option β} {b : β} {as : List α}
    (hstep : ∀ b, ∀ a ∈ as, f b a = g b a) : as.foldlM f b = as.foldlM g b := by
  induction as generalizing b with
  | nil => rfl
  | cons a as ih =>
      rw [List.foldlM_cons, List.foldlM_cons, hstep b a List.mem_cons_self]
      refine congrArg _ (funext fun c => ih fun b' a' h => ?_)
      exact hstep b' a' (List.mem_cons_of_mem _ h)

section

variable {root root' : Json} {P : Schema → Prop}
  (hsame : ∀ s, P s → ∀ member ∈ s.members, ∀ expanding,
    callee? root expanding member = callee? root' expanding member)
  (hclosed : ∀ s, P s → ∀ member ∈ s.members, ∀ expanding c,
    callee? root expanding member = some c → P c.schema)

include hsame hclosed

/-- Two documents in which the members of some schemas lead to the same calls, and to such schemas
again, compose those schemas alike. -/
theorem composeWithin_congr (fuel : Nat) {expanding : List String} {s : Schema} (hs : P s) :
    composeWithin root fuel expanding s = composeWithin root' fuel expanding s := by
  induction fuel generalizing expanding s with
  | zero => rfl
  | succ fuel ih =>
      rw [composeWithin_succ, composeWithin_succ]
      split
      · rfl
      · refine foldlM_congr fun merged member hmem => ?_
        rw [← hsame s hs member hmem expanding]
        cases hc : callee? root expanding member with
        | none => rfl
        | some c => exact congrArg (Option.map merged.merge) (ih (hclosed s hs member hmem _ c hc))

/-- Such documents compose such schemas into the same. -/
theorem compose_congr {s : Schema} (hs : P s) : compose root s = compose root' s := by
  let fuel := max (compositionBound root s) (compositionBound root' s)
  have hfuel : composeWithin root fuel [] s = composeWithin root' fuel [] s :=
    composeWithin_congr hsame hclosed fuel hs
  rw [composeWithin_eq_compose (Nat.le_max_left ..),
    composeWithin_eq_compose (Nat.le_max_right ..)] at hfuel
  exact Option.some.inj hfuel

end

/-- Trees in which the references of the first lead to the same compose alike what refers to nothing
else. -/
theorem compose_congr_of_references {root root' : Json}
    (hsame : ∀ r ∈ root.references, root.follow? r = root'.follow? r) {v : Json}
    (hv : v.references ⊆ root.references) :
    compose root (ofJson v) = compose root' (ofJson v) := by
  refine compose_congr (P := fun s => ∃ w, s = ofJson w ∧ w.references ⊆ root.references) ?_ ?_
    ⟨v, rfl, hv⟩
  · rintro s ⟨w, rfl, hw⟩ member hmem expanding
    obtain ⟨u, rfl, -, hu⟩ := exists_tree_of_mem_members hmem
    rw [callee?, callee?]
    cases href : (ofJson u).facets.ref with
    | none => rfl
    | some r =>
        have hr : r ∈ root.references := hw (hu (ref_mem_references href))
        simp only [resolve?, hsame r hr]
  · rintro s ⟨w, rfl, hw⟩ member hmem expanding c hc
    obtain ⟨u, rfl, -, hu⟩ := exists_tree_of_mem_members hmem
    obtain ⟨-, rfl⟩ | ⟨r, target, -, -, htarget, rfl⟩ := callee?_cases hc
    · exact ⟨u, rfl, List.Subset.trans hu hw⟩
    · obtain ⟨t, ht, rfl⟩ := Option.map_eq_some_iff.1 htarget
      exact ⟨t, rfl, (Json.partOf_of_follow? ht).references_subset⟩

end Schema

/-- Such trees give a schema the same node. -/
theorem nodeIn_congr_of_references {doc doc' : Document}
    (hsame : ∀ r ∈ doc.raw.references, doc.raw.follow? r = doc'.raw.follow? r) {v : Json}
    (hv : v.references ⊆ doc.raw.references) :
    nodeIn doc (Schema.ofJson v) = nodeIn doc' (Schema.ofJson v) :=
  congrArg Schema.toNode (Schema.compose_congr_of_references hsame hv)

end EndpointBindings
