import EndpointBindings.Proofs.Dialects.Items
import EndpointBindings.Proofs.Dialects.Outline
import EndpointBindings.Proofs.Dialects.PropertyOrder
import Mathlib.Data.List.Nodup

/-!
# The order of verbs after the conversion

Taking the shared parameters out of a path item moves the item's last member into their place.  When
that member is an operation and another operation stands in between, the two change places in the
order of verbs (`Displaced`); in every other item the verbs keep their order
(`verbsOf_swapErase_iff`).
-/

namespace EndpointBindings

open Ordered (keys get? lastFirst swapErase)
open Swagger (modernize modernizeAt modernizeMembers convertPathItem convertEntry sharedMember
  sharedBody splitParameters)

/-- The verbs of a path item, in order. -/
def verbsOf (ms : List (String × Json)) : List Verb := ms.filterMap verbAt?

/-- What stands behind the shared parameters of a path item. -/
def behindShared : List (String × Json) → List (String × Json)
  | [] => []
  | e :: es => if e.1 = "parameters" then es else behindShared es

/-- The last member of a path item is an operation and moves in front of another one. -/
def Displaced (ms : List (String × Json)) : Prop :=
  ∃ last, (behindShared ms).getLast? = some last ∧ (verbAt? last).isSome ∧
    1 < (verbsOf (behindShared ms)).length

theorem verbAt?_of_fst {e : String × Json} (h : Verb.ofKey? e.1 = none) : verbAt? e = none := by
  rw [verbAt?, h]
  split <;> rfl

theorem verbsOf_cons (e : String × Json) (es : List (String × Json)) :
    verbsOf (e :: es) = (verbAt? e).toList ++ verbsOf es := by
  rw [verbsOf, List.filterMap_cons]
  cases verbAt? e <;> rfl

theorem verbsOf_append (es fs : List (String × Json)) :
    verbsOf (es ++ fs) = verbsOf es ++ verbsOf fs := List.filterMap_append

/-- Moving the last member to the front changes the verbs when it is an operation in front of
another. -/
theorem verbsOf_lastFirst_iff {es : List (String × Json)} (hnodup : (verbsOf es).Nodup) :
    verbsOf (lastFirst es) = verbsOf es ↔
      ¬ ∃ last, es.getLast? = some last ∧ (verbAt? last).isSome ∧ 1 < (verbsOf es).length := by
  rcases List.eq_nil_or_concat es with rfl | ⟨before, last, rfl⟩
  · exact iff_of_true rfl (by rintro ⟨last, hlast, -⟩; cases hlast)
  · rw [List.concat_eq_append] at hnodup ⊢
    rw [Ordered.lastFirst_concat, verbsOf_cons, verbsOf_append, verbsOf_cons] at *
    rw [List.getLast?_concat]
    cases hverb : verbAt? last with
    | none =>
        refine iff_of_true (by simp [verbsOf]) ?_
        rintro ⟨_, he, hsome, -⟩
        cases he
        rw [hverb] at hsome
        cases hsome
    | some verb =>
        rw [hverb] at hnodup
        have hfresh : verb ∉ verbsOf before := by
          intro hmem
          exact (List.nodup_append.1 hnodup).2.2 verb hmem verb (by simp) rfl
        cases hbefore : verbsOf before with
        | nil =>
            refine iff_of_true rfl ?_
            rintro ⟨_, -, -, hlength⟩
            simp [verbsOf] at hlength
        | cons first rest =>
            refine iff_of_false ?_ ?_
            · intro h
              have hfirst : verb = first := (List.cons.inj h).1
              exact hfresh (by rw [hbefore, hfirst]; exact List.mem_cons_self)
            · intro h
              exact h ⟨last, rfl, by rw [hverb]; rfl, by simp [verbsOf]⟩

/-- **When verbs keep their order**: exactly when none is displaced. -/
theorem verbsOf_swapErase_iff {ms : List (String × Json)} (hnodup : (verbsOf ms).Nodup) :
    verbsOf (swapErase ms "parameters") = verbsOf ms ↔ ¬ Displaced ms := by
  induction ms with
  | nil => exact iff_of_true rfl (by rintro ⟨last, hlast, -⟩; cases hlast)
  | cons e es ih =>
      rw [verbsOf_cons] at hnodup
      have hrest : (verbsOf es).Nodup := (List.nodup_append.1 hnodup).2.1
      rw [Ordered.swapErase_cons, Displaced, behindShared]
      by_cases he : e.1 = "parameters"
      · have hnone : verbAt? e = none := verbAt?_of_fst (by rw [he]; rfl)
        rw [if_pos he, if_pos he, verbsOf_cons, hnone]
        exact verbsOf_lastFirst_iff hrest
      · rw [if_neg he, if_neg he, verbsOf_cons, verbsOf_cons, List.append_cancel_left_eq]
        exact ih hrest

/-- Verbs under lower-case keys are all different. -/
theorem nodup_verbsOf {ms : List (String × Json)} (hnodup : (keys ms).Nodup)
    (hlower : ∀ key ∈ keys ms, (Verb.ofKey? key).isSome → key ∈ Verb.keys) :
    (verbsOf ms).Nodup := by
  have hkeys : ∀ key ∈ Verb.keys, (Verb.ofKey? key).map Verb.key = some key := by decide
  refine List.Nodup.of_map Verb.key (hnodup.sublist (Ordered.map_filterMap_sublist ?_))
  intro e he verb hverb
  rw [verbAt?] at hverb
  split at hverb
  · have hkey := hkeys e.1 (hlower e.1 (List.mem_map_of_mem he) (by rw [hverb]; rfl))
    rw [hverb] at hkey
    exact Option.some.inj hkey
  · cases hverb

/-! ## The converted item -/

/-- The parameters that the operations of a path share, converted. -/
def sharedParameters (ms : List (String × Json)) : List Json :=
  match get? ms "parameters" with
  | some parameters => (splitParameters parameters).1
  | none => []

theorem not_mem_keys_swapErase {α : Type} {es : Ordered String α} (hnodup : (keys es).Nodup)
    (key : String) : key ∉ keys (swapErase es key) := by
  rw [← Ordered.get?_eq_none_iff, Ordered.get?_swapErase hnodup, if_pos rfl]

/-- What a path item is read as after the conversion. -/
def convertedItem (ms : List (String × Json)) : PathItem where
  parameters := (sharedParameters ms).map modernize
  entries := (swapErase ms "parameters").map fun e =>
    (e.1, modernizeAt e.1 (convertEntry (sharedBody ms) e).2)

theorem keys_convertedItem (ms : List (String × Json)) :
    keys (convertedItem ms).entries = keys (swapErase ms "parameters") := by
  rw [convertedItem, keys, keys, List.map_map]
  rfl

/-- Shared parameters in front of the other entries are read as they stand. -/
theorem PathItem.ofJson?_append {shared rest : List (String × Json)}
    (hshared : ∀ e ∈ shared, e.1 = "parameters") (hrest : "parameters" ∉ keys rest) :
    PathItem.ofJson? (.object (shared ++ rest)) = some {
      parameters := (Json.field? shared "parameters" Json.list?).getD [], entries := rest } := by
  have hnone : shared.filter (·.1 ≠ "parameters") = [] := by
    rw [List.filter_eq_nil_iff]
    intro e he
    simpa using hshared e he
  have hall : rest.filter (·.1 ≠ "parameters") = rest := by
    rw [List.filter_eq_self]
    intro e he
    have hne : e.1 ≠ "parameters" := by
      intro h
      exact hrest (h ▸ List.mem_map_of_mem he)
    simpa using hne
  have hget : get? (shared ++ rest) "parameters" = get? shared "parameters" := by
    rw [Ordered.get?_append, Ordered.get?_eq_none_iff.2 hrest, Option.or_none]
  show some (PathItem.mk (((get? (shared ++ rest) "parameters").bind Json.list?).getD [])
    ((shared ++ rest).filter (·.1 ≠ "parameters"))) = _
  rw [hget, List.filter_append, hnone, hall, List.nil_append]
  rfl

/-- The shared parameters of a rewritten path item. -/
def rewrittenShared (ms : List (String × Json)) : List (String × Json) :=
  (sharedMember ms).map fun e => (e.1, modernizeAt e.1 e.2)

theorem fst_of_mem_rewrittenShared {ms : List (String × Json)} {e : String × Json}
    (h : e ∈ rewrittenShared ms) : e.1 = "parameters" := by
  rw [rewrittenShared, sharedMember] at h
  cases hu : get? ms "parameters" with
  | none => simp [hu] at h
  | some u =>
      simp only [hu, List.map_cons, List.map_nil, List.mem_singleton] at h
      rw [h]

/-- The conversion and the rewrite of a path item. -/
theorem modernize_convertPathItem {ms : List (String × Json)} (hplain : "x-nullable" ∉ keys ms) :
    modernize (convertPathItem (.object ms)) =
      .object (rewrittenShared ms ++ (convertedItem ms).entries) := by
  have hmembers : modernizeMembers (sharedMember ms ++
      (swapErase ms "parameters").map (convertEntry (sharedBody ms))) =
        rewrittenShared ms ++ (convertedItem ms).entries := by
    rw [Swagger.modernizeMembers_eq, List.map_append, List.map_map]
    refine congrArg _ (List.map_congr_left fun e _ => ?_)
    show ((convertEntry (sharedBody ms) e).1,
      modernizeAt (convertEntry (sharedBody ms) e).1 _) = _
    rw [Swagger.convertEntry_fst]
  have hshared : "x-nullable" ∉ keys (rewrittenShared ms) := by
    intro h
    obtain ⟨e, he, hkey⟩ := List.mem_map.1 h
    rw [fst_of_mem_rewrittenShared he] at hkey
    exact absurd hkey (by decide)
  have hentries : "x-nullable" ∉ keys (convertedItem ms).entries := by
    rw [keys_convertedItem]
    intro h
    obtain ⟨e, he, hkey⟩ := List.mem_map.1 h
    exact hplain (List.mem_map.2 ⟨e, Ordered.mem_of_mem_swapErase he, hkey⟩)
  rw [Swagger.convertPathItem_object, modernize, hmembers, Swagger.renameNullable_of_not_mem]
  rw [Ordered.keys_append, List.mem_append, not_or]
  exact ⟨hshared, hentries⟩

theorem ofJson?_convertPathItem {ms : List (String × Json)} (hnodup : (keys ms).Nodup)
    (hplain : "x-nullable" ∉ keys ms) :
    PathItem.ofJson? (modernize (convertPathItem (.object ms))) = some (convertedItem ms) := by
  have hentries : "parameters" ∉ keys (convertedItem ms).entries := by
    rw [keys_convertedItem]
    exact not_mem_keys_swapErase hnodup _
  rw [modernize_convertPathItem hplain,
    PathItem.ofJson?_append (fun _ => fst_of_mem_rewrittenShared) hentries, rewrittenShared,
    sharedMember, convertedItem, sharedParameters]
  cases get? ms "parameters" with
  | none => rfl
  | some u => exact congrArg (fun ps => some (PathItem.mk ps _)) (Swagger.modernizeItems_eq _)

/-- The verbs of a converted path item: those of the item without its shared parameters. -/
theorem keys_endpointsOf_convertedItem (doc : Document) {ms : List (String × Json)}
    (hnodup : (verbsOf (swapErase ms "parameters")).Nodup) :
    keys (endpointsOf doc (convertedItem ms)) = verbsOf (swapErase ms "parameters") := by
  have hverbs : (convertedItem ms).entries.filterMap verbAt? =
      verbsOf (swapErase ms "parameters") := by
    show ((swapErase ms "parameters").map _).filterMap verbAt? = _
    rw [List.filterMap_map]
    refine List.filterMap_congr fun e _ => ?_
    have hread := (Swagger.bothReadable_convertEntry (sharedBody ms) e.1 e.2).trans
      (Swagger.bothReadable_modernizeAt e.1 _)
    rw [Function.comp_apply, verbAt?, verbAt?, hread]
  rw [keys_endpointsOf, hverbs, Ordered.eraseDups_of_nodup hnodup]

/-- The conversion changes at most the order of verbs. -/
theorem verbsOf_swapErase_perm (ms : List (String × Json)) :
    (verbsOf (swapErase ms "parameters")).Perm (verbsOf ms) := by
  by_cases hmem : "parameters" ∈ keys ms
  · obtain ⟨v, hperm⟩ := Ordered.exists_perm_swapErase hmem
    have hkey : Verb.ofKey? "parameters" = none := by decide
    have hshared : verbAt? ("parameters", v) = none := @verbAt?_of_fst ("parameters", v) hkey
    have hverbs := hperm.filterMap verbAt?
    rw [List.filterMap_cons_none hshared] at hverbs
    exact hverbs.symm
  · rw [Ordered.swapErase_of_not_mem hmem]

end EndpointBindings
