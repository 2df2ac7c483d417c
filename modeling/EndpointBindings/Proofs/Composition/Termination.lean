import EndpointBindings.Proofs.Json.Parts
import EndpointBindings.Proofs.Schema.Keywords
import EndpointBindings.Schema.Composition

/-!
# Composition ends

A composition goes down into members and through references, and a reference may lead anywhere in
the document, so nothing about the schema alone gets smaller.  What does get smaller is a pair: the
references that are not being expanded yet, and below a fixed number of those the depth of the
schema at hand.  Going through a reference uses up one of the first and may set the second back to
the depth of the whole document; going down into a member keeps the first and lowers the second.

## What the statements are about

| | |
| :-- | :-- |
| `Call` | what one call of the composition is given |
| `Calls root c d` | the run of `c` makes the call `d` |
| `CallChain root c n d` | `n` calls inside one another lead from `c` to `d` |

`composeWithin_succ` reads the definition as its calls, and `composeWithin_eq_none_iff` says that
the fuel runs out exactly when there are as many calls inside one another as there is fuel.  So a
bound on the chains is a bound on the recursion, and `compose_terminates` puts all of it together.
-/

namespace EndpointBindings.Schema

/-! ## Calls -/

/-- A call of the composition: the references being expanded, the latest first, and the schema. -/
structure Call where
  expanding : List String
  schema : Schema

/-- The call that a member leads to; none when the member is passed over. -/
def callee? (root : Json) (expanding : List String) (member : Schema) : Option Call :=
  match member.facets.ref with
  | some reference =>
    if reference ∈ expanding then none
    else (resolve? root reference).map fun target => ⟨reference :: expanding, target⟩
  | none => some ⟨expanding, member⟩

/-- The definition, with each member's call in one place. -/
theorem composeWithin_succ (root : Json) (fuel : Nat) (expanding : List String) (s : Schema) :
    composeWithin root (fuel + 1) expanding s =
      if !s.isComposed then some s
      else
        s.members.foldlM (fun merged member =>
          match callee? root expanding member with
          | none => some merged
          | some c => (composeWithin root fuel c.expanding c.schema).map merged.merge)
          { s with allOf := none } := by
  rw [composeWithin]
  split
  · rfl
  · congr 1
    funext merged member
    unfold callee?
    cases member.facets.ref with
    | none => rfl
    | some reference =>
        by_cases h : reference ∈ expanding
        · simp only [if_pos h]
        · simp only [if_neg h]
          cases resolve? root reference <;> rfl

/-- What a call leads to: down into a member that is no reference, or through a reference that is
not being expanded. -/
theorem callee?_cases {root : Json} {expanding : List String} {member : Schema} {d : Call}
    (h : callee? root expanding member = some d) :
    (member.facets.ref = none ∧ d = ⟨expanding, member⟩) ∨
      ∃ reference target, member.facets.ref = some reference ∧ reference ∉ expanding ∧
        resolve? root reference = some target ∧ d = ⟨reference :: expanding, target⟩ := by
  unfold callee? at h
  cases href : member.facets.ref with
  | none =>
      rw [href] at h
      exact .inl ⟨rfl, (Option.some.inj h).symm⟩
  | some reference =>
      simp only [href] at h
      split at h
      · cases h
      · next hnot =>
          obtain ⟨target, ht, rfl⟩ := Option.map_eq_some_iff.1 h
          exact .inr ⟨reference, target, rfl, hnot, ht, rfl⟩

/-- The run of one call makes another. -/
def Calls (root : Json) (c d : Call) : Prop :=
  ∃ member ∈ c.schema.members, callee? root c.expanding member = some d

/-- Calls inside one another, and how many. -/
inductive CallChain (root : Json) (c : Call) : Nat → Call → Prop
  | start : CallChain root c 0 c
  | call {n : Nat} {d e : Call} : CallChain root c n d → Calls root d e →
      CallChain root c (n + 1) e

/-- A chain taken from its front. -/
theorem CallChain.cons {root : Json} {b c : Call} (h : Calls root b c) :
    ∀ {n : Nat} {d : Call}, CallChain root c n d → CallChain root b (n + 1) d
  | _, _, .start => .call .start h
  | _, _, .call hc hd => .call (hc.cons h) hd

theorem CallChain.exists_of_succ {root : Json} {b d : Call} :
    ∀ {n : Nat}, CallChain root b (n + 1) d → ∃ c, Calls root b c ∧ CallChain root c n d
  | 0, .call .start h => ⟨d, h, .start⟩
  | _ + 1, .call hc hd => by
      obtain ⟨c, hbc, hc⟩ := hc.exists_of_succ
      exact ⟨c, hbc, .call hc hd⟩

theorem foldlM_eq_none_iff {α β : Type} (step : β → α → Option β) (fails : α → Prop)
    (hstep : ∀ b a, step b a = none ↔ fails a) (b : β) (as : List α) :
    as.foldlM step b = none ↔ ∃ a ∈ as, fails a := by
  induction as generalizing b with
  | nil => simp
  | cons a as ih =>
      rw [List.foldlM_cons, Option.bind_eq_bind, Option.bind_eq_none_iff]
      constructor
      · intro h
        cases hb : step b a with
        | none => exact ⟨a, List.mem_cons_self, (hstep b a).1 hb⟩
        | some b' =>
            obtain ⟨a', ha', hf⟩ := (ih b').1 (h b' hb)
            exact ⟨a', List.mem_cons_of_mem _ ha', hf⟩
      · rintro ⟨a', ha', hf⟩ b' hb
        rcases List.mem_cons.1 ha' with rfl | ha'
        · rw [(hstep b a').2 hf] at hb
          cases hb
        · exact (ih b').2 ⟨a', ha', hf⟩

/-- **The fuel is the recursion depth**: it runs out exactly when there are that many calls inside
one another. -/
theorem composeWithin_eq_none_iff {root : Json} {fuel : Nat} {c : Call} :
    composeWithin root fuel c.expanding c.schema = none ↔ ∃ d, CallChain root c fuel d := by
  induction fuel generalizing c with
  | zero => exact ⟨fun _ => ⟨c, .start⟩, fun _ => rfl⟩
  | succ fuel ih =>
      have hmember : ∀ merged member : Schema,
          (match callee? root c.expanding member with
            | none => some merged
            | some d => (composeWithin root fuel d.expanding d.schema).map merged.merge) = none ↔
          ∃ d e, callee? root c.expanding member = some d ∧ CallChain root d fuel e := by
        intro merged member
        cases callee? root c.expanding member with
        | none => simp
        | some d => simp [ih]
      rw [composeWithin_succ]
      constructor
      · intro h
        split at h
        · cases h
        · obtain ⟨member, hm, d, e, hd, he⟩ := (foldlM_eq_none_iff _ _ hmember _ _).1 h
          exact ⟨e, he.cons ⟨member, hm, hd⟩⟩
      · rintro ⟨e, he⟩
        obtain ⟨d, ⟨member, hm, hd⟩, hde⟩ := he.exists_of_succ
        have hcomposed : c.schema.isComposed = true := by
          cases hms : c.schema.members with
          | nil => rw [hms] at hm; exact absurd hm List.not_mem_nil
          | cons m ms => simp [isComposed, hms]
        rw [hcomposed]
        exact (foldlM_eq_none_iff _ _ hmember _ _).2 ⟨member, hm, d, e, hd, hde⟩

/-! ## What a schema can lead to

`Within refs n s` says how far composing `s` can go without leaving it: less than `n` levels of
members that are no references, and only through references of `refs`. -/

/-- Members nest at most `n` deep, and those that are references are among `refs`. -/
def Within (refs : List String) : Nat → Schema → Prop
  | 0, s => s.members = []
  | n + 1, s => ∀ member ∈ s.members,
      (∀ reference, member.facets.ref = some reference → reference ∈ refs) ∧
        (member.facets.ref = none → Within refs n member)

/-- How deep a schema goes is read off a tree that it stands in some relation to, as long as its
members stand in that relation to smaller trees. -/
theorem within_of_tree (related : Schema → Json → Prop)
    (hmember : ∀ {s v member}, related s v → member ∈ s.members →
      ∃ w, related member w ∧ w.depth < v.depth ∧ w.references ⊆ v.references)
    (href : ∀ {s v reference}, related s v → s.facets.ref = some reference →
      reference ∈ v.references) {refs : List String} :
    ∀ {n : Nat} {s : Schema} {v : Json}, related s v → v.depth ≤ n → v.references ⊆ refs →
      Within refs n s
  | 0, s, v, h, hdepth, _ => by
      refine List.eq_nil_iff_forall_not_mem.2 fun member hm => ?_
      obtain ⟨w, -, hw, -⟩ := hmember h hm
      omega
  | n + 1, s, v, h, hdepth, hrefs => by
      intro member hm
      obtain ⟨w, hrel, hw, hsub⟩ := hmember h hm
      refine ⟨fun reference hr => hrefs (hsub (href hrel hr)), fun _ => ?_⟩
      exact within_of_tree related hmember href hrel (by omega) (List.Subset.trans hsub hrefs)

/-! ### Schemas that were read -/

theorem exists_tree_of_mem_members {v : Json} {member : Schema} (h : member ∈ (ofJson v).members) :
    ∃ w, member = ofJson w ∧ w.depth < v.depth ∧ w.references ⊆ v.references := by
  cases v with
  | object ms =>
      rw [ofJson, ofMembers_eq, members] at h
      cases hall : Ordered.get? ms "allOf" with
      | none => simp [hall] at h
      | some u =>
          have hu := Ordered.mem_of_get? hall
          cases u with
          | list xs =>
              simp only [hall, Option.bind_some, listed?, Option.getD_some, ofItems_eq_map] at h
              obtain ⟨w, hw, rfl⟩ := List.mem_map.1 h
              refine ⟨w, rfl, ?_, ?_⟩
              · exact Nat.lt_trans (Json.depth_lt_of_mem hw) (Json.depth_lt_of_mem_members hu)
              · exact List.Subset.trans (Json.references_subset_of_mem hw)
                  (Json.references_subset_of_mem_members hu)
          | null | bool _ | number _ | string _ | object _ => simp [hall, listed?] at h
  | null | bool _ | number _ | string _ | list _ => simp [ofJson, members] at h

theorem ref_mem_references {v : Json} {reference : String}
    (h : (ofJson v).facets.ref = some reference) : reference ∈ v.references := by
  cases v with
  | object ms =>
      rw [ofJson, ofMembers_eq] at h
      obtain ⟨u, hu, hs⟩ := Option.bind_eq_some_iff.1 h
      cases u with
      | string target =>
          cases hs
          exact Json.mem_references_of_mem (Ordered.mem_of_get? hu)
      | null | bool _ | number _ | list _ | object _ => cases hs
  | null | bool _ | number _ | string _ | list _ => cases h

theorem within_ofJson {refs : List String} {n : Nat} {v : Json} (hdepth : v.depth ≤ n)
    (hrefs : v.references ⊆ refs) : Within refs n (ofJson v) :=
  within_of_tree (fun s v => s = ofJson v)
    (fun h hm => exists_tree_of_mem_members (h ▸ hm)) (fun h hr => ref_mem_references (h ▸ hr))
    rfl hdepth hrefs

/-- What a reference leads to goes no deeper than the document. -/
theorem within_of_resolve? {root : Json} {reference : String} {target : Schema}
    (h : resolve? root reference = some target) {refs : List String}
    (hrefs : root.references ⊆ refs) {n : Nat} (hdepth : root.depth ≤ n) :
    Within refs n target := by
  obtain ⟨w, hw, rfl⟩ := Option.map_eq_some_iff.1 h
  have hpart := Json.partOf_of_follow? hw
  exact within_ofJson (Nat.le_trans hpart.depth_le hdepth)
    (List.Subset.trans hpart.references_subset hrefs)

/-! ### The schema itself, measured by the tree that it is written as -/

theorem toJson_mem_listToJson {member : Schema} {ss : List Schema} (h : member ∈ ss) :
    member.toJson ∈ listToJson ss := by
  induction ss with
  | nil => exact absurd h List.not_mem_nil
  | cons s ss ih =>
      rw [listToJson]
      rcases List.mem_cons.1 h with rfl | h
      · exact List.mem_cons_self
      · exact List.mem_cons_of_mem _ (ih h)

theorem toJson_of_mem_members {s member : Schema} (h : member ∈ s.members) :
    member.toJson.depth < s.toJson.depth ∧ member.toJson.references ⊆ s.toJson.references := by
  obtain ⟨f, properties, items, allOf, oneOf, anyOf⟩ := s
  cases allOf with
  | none => exact absurd h List.not_mem_nil
  | some ss =>
      have hitem : member.toJson ∈ listToJson ss := toJson_mem_listToJson h
      obtain ⟨ms, hms, hlist⟩ : ∃ ms, toJson ⟨f, properties, items, some ss, oneOf, anyOf⟩ =
          .object ms ∧ ("allOf", Json.list (listToJson ss)) ∈ ms :=
        ⟨_, by rw [toJson], by simp [listMember]⟩
      rw [hms]
      exact ⟨Nat.lt_trans (Json.depth_lt_of_mem hitem) (Json.depth_lt_of_mem_members hlist),
        List.Subset.trans (Json.references_subset_of_mem hitem)
          (Json.references_subset_of_mem_members hlist)⟩

theorem ref_mem_references_toJson {s : Schema} {reference : String}
    (h : s.facets.ref = some reference) : reference ∈ s.toJson.references := by
  obtain ⟨f, properties, items, allOf, oneOf, anyOf⟩ := s
  rw [toJson]
  refine Json.mem_references_of_mem ?_
  have h : f.ref = some reference := h
  simp [memberOf, h]

theorem within_self {s : Schema} {refs : List String} {n : Nat} (hdepth : s.toJson.depth ≤ n)
    (hrefs : s.toJson.references ⊆ refs) : Within refs n s :=
  within_of_tree (fun s v => v = s.toJson)
    (fun {s v member} h hm => by
      subst h
      exact ⟨member.toJson, rfl, toJson_of_mem_members hm⟩)
    (fun {s v reference} h hr => by
      subst h
      exact ref_mem_references_toJson hr)
    rfl hdepth hrefs

/-! ## The run of a composition

`refs` and `limit` are fixed for a run: every reference there is, and the depth of the deepest tree
in sight.  A call that is `Bounded` by `n` has at most `n` levels of members below it, and the
references that are being expanded are different ones of `refs`. -/

/-- What holds of every call of a run. -/
structure Bounded (refs : List String) (n : Nat) (c : Call) : Prop where
  nodup : c.expanding.Nodup
  subset : c.expanding ⊆ refs
  within : Within refs n c.schema

/-- What is left of a run: the references that are not being expanded yet, each with a full depth,
and the depth of the schema at hand. -/
def budget (refs : List String) (limit n : Nat) (c : Call) : Nat :=
  (refs.length - c.expanding.length) * (limit + 1) + n

/-- **One call**: the invariant stays, and less is left. -/
theorem Bounded.step {root : Json} {refs : List String} {limit n : Nat} {c d : Call}
    (hrefs : root.references ⊆ refs) (hlimit : root.depth ≤ limit) (h : Bounded refs n c)
    (hcall : Calls root c d) :
    ∃ k, Bounded refs k d ∧ budget refs limit k d < budget refs limit n c := by
  obtain ⟨member, hm, hd⟩ := hcall
  obtain ⟨hnodup, hsub, hwithin⟩ := h
  cases n with
  | zero =>
      have hwithin : c.schema.members = [] := hwithin
      rw [hwithin] at hm
      exact absurd hm List.not_mem_nil
  | succ n =>
      obtain ⟨href, hdown⟩ := hwithin member hm
      rcases callee?_cases hd with ⟨hnone, rfl⟩ | ⟨reference, target, hr, hfresh, ht, rfl⟩
      · exact ⟨n, ⟨hnodup, hsub, hdown hnone⟩, Nat.lt_succ_self _⟩
      · have hnodup' : (reference :: c.expanding).Nodup := List.nodup_cons.2 ⟨hfresh, hnodup⟩
        have hsub' : reference :: c.expanding ⊆ refs :=
          List.cons_subset.2 ⟨href reference hr, hsub⟩
        refine ⟨limit, ⟨hnodup', hsub', within_of_resolve? ht hrefs hlimit⟩, ?_⟩
        have hlength : c.expanding.length + 1 ≤ refs.length := hnodup'.length_le_of_subset hsub'
        have hleft : refs.length - c.expanding.length =
            (refs.length - (c.expanding.length + 1)) + 1 := by omega
        simp only [budget, List.length_cons]
        rw [hleft, Nat.succ_mul]
        omega

/-- **Many calls**: the invariant holds wherever a chain leads, and its length is paid for. -/
theorem Bounded.chain {root : Json} {refs : List String} {limit n : Nat} {c : Call}
    (hrefs : root.references ⊆ refs) (hlimit : root.depth ≤ limit) (h : Bounded refs n c) :
    ∀ {m : Nat} {d : Call}, CallChain root c m d →
      ∃ k, Bounded refs k d ∧ budget refs limit k d + m ≤ budget refs limit n c
  | _, _, .start => ⟨n, h, Nat.le_refl _⟩
  | _, _, .call hc hd => by
      obtain ⟨k, hk, hbudget⟩ := Bounded.chain hrefs hlimit h hc
      obtain ⟨j, hj, hless⟩ := hk.step hrefs hlimit hd
      exact ⟨j, hj, by omega⟩

/-- The references of a document and of a schema. -/
def allReferences (root : Json) (s : Schema) : List String :=
  root.references ++ s.toJson.references

theorem bounded_start (root : Json) (s : Schema) :
    Bounded (allReferences root s) (max root.depth s.toJson.depth) ⟨[], s⟩ where
  nodup := List.nodup_nil
  subset := List.nil_subset _
  within := within_self (Nat.le_max_right ..) (List.subset_append_right ..)

theorem bounded_of_chain {root : Json} {s : Schema} {m : Nat} {d : Call}
    (h : CallChain root ⟨[], s⟩ m d) :
    ∃ k, Bounded (allReferences root s) k d ∧ m < compositionBound root s := by
  obtain ⟨k, hk, hbudget⟩ := (bounded_start root s).chain (List.subset_append_left ..)
    (Nat.le_max_left root.depth s.toJson.depth) h
  refine ⟨k, hk, ?_⟩
  simp only [budget, List.length_append, List.length_nil, Nat.sub_zero] at hbudget
  simp only [compositionBound]
  rw [Nat.succ_mul]
  omega

theorem composeWithin_isSome {root : Json} {s : Schema} {fuel : Nat}
    (h : compositionBound root s ≤ fuel) : (composeWithin root fuel [] s).isSome := by
  rw [Option.isSome_iff_ne_none]
  intro hnone
  obtain ⟨d, hd⟩ := (composeWithin_eq_none_iff (c := ⟨[], s⟩)).1 hnone
  obtain ⟨_, -, hlt⟩ := bounded_of_chain hd
  omega

/-! ## More fuel changes nothing -/

theorem foldlM_mono {α β : Type} {f g : β → α → Option β}
    (hstep : ∀ b a b', f b a = some b' → g b a = some b') {b b' : β} {as : List α}
    (h : as.foldlM f b = some b') : as.foldlM g b = some b' := by
  induction as generalizing b with
  | nil => exact h
  | cons a as ih =>
      rw [List.foldlM_cons, Option.bind_eq_bind] at h ⊢
      obtain ⟨c, hc, hrest⟩ := Option.bind_eq_some_iff.1 h
      exact Option.bind_eq_some_iff.2 ⟨c, hstep b a c hc, ih hrest⟩

theorem composeWithin_succ_eq_some {root : Json} {fuel : Nat} {expanding : List String}
    {s out : Schema} (h : composeWithin root fuel expanding s = some out) :
    composeWithin root (fuel + 1) expanding s = some out := by
  induction fuel generalizing expanding s out with
  | zero => cases h
  | succ fuel ih =>
      rw [composeWithin_succ] at h ⊢
      split
      · next hplain => rwa [if_pos hplain] at h
      · next hcomposed =>
          rw [if_neg hcomposed] at h
          refine foldlM_mono (fun merged member merged' hm => ?_) h
          cases hc : callee? root expanding member with
          | none => rwa [hc] at hm
          | some c =>
              simp only [hc] at hm ⊢
              obtain ⟨composed, hcomp, rfl⟩ := Option.map_eq_some_iff.1 hm
              rw [ih hcomp, Option.map_some]

theorem composeWithin_mono {root : Json} {fuel fuel' : Nat} {expanding : List String}
    {s out : Schema} (hle : fuel ≤ fuel') (h : composeWithin root fuel expanding s = some out) :
    composeWithin root fuel' expanding s = some out := by
  induction hle with
  | refl => exact h
  | step _ ih => exact composeWithin_succ_eq_some ih

/-- With fuel at or above the bound the result is the composition. -/
theorem composeWithin_eq_compose {root : Json} {s : Schema} {fuel : Nat}
    (h : compositionBound root s ≤ fuel) :
    composeWithin root fuel [] s = some (compose root s) := by
  obtain ⟨out, hout⟩ := Option.isSome_iff_exists.1
    (composeWithin_isSome (Nat.le_refl (compositionBound root s)))
  rw [composeWithin_mono h hout, compose]
  split
  · rw [hout, Option.getD_some]
  · next hplain =>
      -- a schema that is not composed comes back from the first call
      have hpos : compositionBound root s = (compositionBound root s - 1) + 1 := by
        have : 0 < compositionBound root s := by
          rw [compositionBound]
          exact Nat.mul_pos (Nat.succ_pos _) (Nat.succ_pos _)
        omega
      rw [hpos, composeWithin_succ, if_pos (by simpa using hplain)] at hout
      exact hout.symm

/-! ## The theorem -/

/-- **A composition ends.**  In every run the references being expanded are all different, and
there are never more of them than different references in the document and the schema.  A call
either goes down into a member of the schema at hand or begins to expand one more reference.  Calls
inside one another are fewer than the bound, the fuel runs out exactly when they are as many as it,
and so at or above the bound every fuel gives the same result. -/
theorem compose_terminates (root : Json) (s : Schema) :
    (∀ n c, CallChain root ⟨[], s⟩ n c →
      c.expanding.Nodup ∧ c.expanding ⊆ allReferences root s ∧
        c.expanding.length ≤ (allReferences root s).eraseDups.length ∧
        n < compositionBound root s) ∧
    (∀ c d, Calls root c d →
      (d.expanding = c.expanding ∧ d.schema ∈ c.schema.members ∧
        d.schema.toJson.depth < c.schema.toJson.depth) ∨
      ∃ reference, reference ∉ c.expanding ∧ d.expanding = reference :: c.expanding ∧
        resolve? root reference = some d.schema) ∧
    (∀ fuel, composeWithin root fuel [] s = none ↔ ∃ d, CallChain root ⟨[], s⟩ fuel d) ∧
    ∀ fuel, compositionBound root s ≤ fuel →
      composeWithin root fuel [] s = some (compose root s) := by
  refine ⟨?_, ?_, ?_, fun fuel h => composeWithin_eq_compose h⟩
  · intro n c hc
    obtain ⟨k, hk, hn⟩ := bounded_of_chain hc
    have hdistinct : c.expanding ⊆ (allReferences root s).eraseDups :=
      fun reference hr => List.mem_eraseDups.2 (hk.subset hr)
    exact ⟨hk.nodup, hk.subset, hk.nodup.length_le_of_subset hdistinct, hn⟩
  · rintro c d ⟨member, hm, hd⟩
    rcases callee?_cases hd with ⟨-, rfl⟩ | ⟨reference, target, -, hfresh, ht, rfl⟩
    · exact .inl ⟨rfl, hm, (toJson_of_mem_members hm).1⟩
    · exact .inr ⟨reference, hfresh, rfl, ht⟩
  · intro fuel
    exact composeWithin_eq_none_iff (c := ⟨[], s⟩)

end EndpointBindings.Schema
