import EndpointBindings.Proofs.Dialects.DocumentOrder

/-!
# What a converted document is assembled from

The conversion from Swagger 2 takes parts of a document over, each into its place, and puts new
objects around them.  It makes no object with a key twice, and no reference: before the rewrite, the
references of the converted document are references of the document
(`assembled_convertedMembers`).  What makes this so is the same for every converter (`AddsNone`): it
changes objects only, and adds no reference to them.
-/

namespace EndpointBindings

open Ordered (keys)
open Swagger (tableMember copiedMember unlessEmpty componentsOf serversOf)

/-! ## The references of a tree -/

namespace Json

/-- The references of a member: the string that it is, under `$ref`, and those in its value. -/
def memberReferences (e : String × Json) : List String :=
  (match e.2 with
    | .string target => if e.1 = "$ref" then [target] else []
    | _ => []) ++ e.2.references

theorem references_list (xs : List Json) : (list xs).references = xs.flatMap references := by
  show referencesOfItems xs = _
  induction xs with
  | nil => rfl
  | cons x xs ih => rw [referencesOfItems, ih, List.flatMap_cons]

theorem references_object (ms : List (String × Json)) :
    (object ms).references = ms.flatMap memberReferences := by
  show referencesOfMembers ms = _
  induction ms with
  | nil => rfl
  | cons e ms ih =>
      rw [List.flatMap_cons, ← ih]
      rfl

theorem mem_memberReferences_iff {key target : String} {v : Json} :
    target ∈ memberReferences (key, v) ↔
      (key = "$ref" ∧ v = string target) ∨ target ∈ v.references := by
  rw [memberReferences, List.mem_append]
  refine or_congr_left ?_
  cases v with
  | string s =>
      by_cases hkey : key = "$ref" <;> simp [hkey, eq_comm]
  | null | bool _ | number _ | list _ | object _ => simp

/-- A reference is a string under `$ref` in an object somewhere in the tree. -/
theorem mem_references_iff {v : Json} {target : String} :
    target ∈ v.references ↔ ∃ ms, (object ms).StandsIn v ∧ ("$ref", string target) ∈ ms := by
  constructor
  · intro h
    cases v with
    | list xs =>
        rw [references_list] at h
        obtain ⟨x, hx, h⟩ := List.mem_flatMap.1 h
        have hdepth := depth_lt_of_mem hx
        obtain ⟨ms, hms, htarget⟩ := mem_references_iff.1 h
        exact ⟨ms, .item hx hms, htarget⟩
    | object ms =>
        rw [references_object] at h
        obtain ⟨⟨key, u⟩, hu, h⟩ := List.mem_flatMap.1 h
        have hdepth := depth_lt_of_mem_members hu
        rcases mem_memberReferences_iff.1 h with ⟨rfl, rfl⟩ | h
        · exact ⟨ms, .whole, hu⟩
        · obtain ⟨ns, hns, htarget⟩ := mem_references_iff.1 h
          exact ⟨ns, .member hu hns, htarget⟩
    | null | bool _ | number _ | string _ => exact absurd h List.not_mem_nil
  · rintro ⟨ms, hms, htarget⟩
    exact hms.partOf.references_subset (mem_references_of_mem htarget)
termination_by v.depth

end Json

/-! ## Parts are taken over -/

/-- A tree with each key once that has no references but those of a document. -/
structure Assembled (doc v : Json) : Prop where
  wellFormed : v.WellFormed
  references : v.references ⊆ doc.references

/-- The same of a member of an object. -/
structure AssembledMember (doc : Json) (e : String × Json) : Prop where
  wellFormed : e.2.WellFormed
  references : Json.memberReferences e ⊆ doc.references

theorem AssembledMember.value {doc : Json} {e : String × Json} (h : AssembledMember doc e) :
    Assembled doc e.2 :=
  ⟨h.wellFormed, List.Subset.trans (List.subset_append_right ..) h.references⟩

namespace Assembled

variable {doc v w : Json} {key : String} {ms : List (String × Json)}

theorem under (h : Assembled doc v) (hkey : key ≠ "$ref") : AssembledMember doc (key, v) := by
  refine ⟨h.wellFormed, fun target htarget => ?_⟩
  rcases Json.mem_memberReferences_iff.1 htarget with ⟨he, -⟩ | htarget
  · exact absurd he hkey
  · exact h.references htarget

theorem list_iff {xs : List Json} : Assembled doc (.list xs) ↔ ∀ x ∈ xs, Assembled doc x := by
  constructor
  · intro h x hx
    exact ⟨Json.wellFormed_list_iff.1 h.wellFormed x hx,
      List.Subset.trans (Json.references_subset_of_mem hx) h.references⟩
  · intro h
    refine ⟨.list fun x hx => (h x hx).wellFormed, fun target htarget => ?_⟩
    rw [Json.references_list] at htarget
    obtain ⟨x, hx, htarget⟩ := List.mem_flatMap.1 htarget
    exact (h x hx).references htarget

theorem object_iff : Assembled doc (.object ms) ↔
    (keys ms).Nodup ∧ ∀ e ∈ ms, AssembledMember doc e := by
  constructor
  · intro h
    obtain ⟨hnodup, hvalues⟩ := Json.wellFormed_object_iff.1 h.wellFormed
    refine ⟨hnodup, fun e he => ⟨hvalues e.1 e.2 he, fun target htarget => ?_⟩⟩
    refine h.references ?_
    rw [Json.references_object]
    exact List.mem_flatMap.2 ⟨e, he, htarget⟩
  · rintro ⟨hnodup, h⟩
    refine ⟨.object hnodup fun key v hv => (h _ hv).wellFormed, fun target htarget => ?_⟩
    rw [Json.references_object] at htarget
    obtain ⟨e, he, htarget⟩ := List.mem_flatMap.1 htarget
    exact (h e he).references htarget

/-- A new object, without a reference of its own. -/
theorem of_values (hnodup : (keys ms).Nodup) (href : "$ref" ∉ keys ms)
    (h : ∀ e ∈ ms, Assembled doc e.2) : Assembled doc (.object ms) :=
  object_iff.2 ⟨hnodup, fun e he => (h e he).under fun hkey =>
    href (hkey ▸ List.mem_map_of_mem he)⟩

theorem of_get? (h : Assembled doc v) (hw : v.get? key = some w) : Assembled doc w := by
  obtain ⟨ms, hms, hw⟩ := Option.bind_eq_some_iff.1 hw
  obtain rfl := Json.eq_of_members? hms
  exact ((object_iff.1 h).2 _ (Ordered.mem_of_get? hw)).value

theorem getD (h : Assembled doc v) (hw : Assembled doc w) :
    Assembled doc ((v.get? key).getD w) := by
  cases hv : v.get? key with
  | none => exact hw
  | some u => exact h.of_get? hv

theorem empty : Assembled doc (.object []) :=
  of_values List.nodup_nil List.not_mem_nil fun _ h => absurd h List.not_mem_nil

theorem put (h : Assembled doc (.object ms)) (hkey : key ≠ "$ref") (hv : Assembled doc v) :
    Assembled doc (.object (Ordered.put ms key v)) := by
  obtain ⟨hnodup, hmembers⟩ := object_iff.1 h
  refine object_iff.2 ⟨Ordered.nodup_keys_put hnodup _ _, fun e he => ?_⟩
  rcases Ordered.mem_of_mem_put he with he | rfl
  · exact hmembers e he
  · exact hv.under hkey

theorem cons (h : Assembled doc (.object ms)) (hfresh : key ∉ keys ms) (hkey : key ≠ "$ref")
    (hv : Assembled doc v) : Assembled doc (.object ((key, v) :: ms)) := by
  obtain ⟨hnodup, hmembers⟩ := object_iff.1 h
  exact object_iff.2 ⟨List.nodup_cons.2 ⟨hfresh, hnodup⟩,
    List.forall_mem_cons.2 ⟨hv.under hkey, hmembers⟩⟩

theorem swapErase (h : Assembled doc (.object ms)) (key : String) :
    Assembled doc (.object (Ordered.swapErase ms key)) := by
  obtain ⟨hnodup, hmembers⟩ := object_iff.1 h
  exact object_iff.2 ⟨Ordered.nodup_keys_swapErase hnodup key, fun e he =>
    hmembers e (Ordered.mem_of_mem_swapErase he)⟩

theorem filter (h : Assembled doc (.object ms)) (keep : String × Json → Bool) :
    Assembled doc (.object (ms.filter keep)) := by
  obtain ⟨hnodup, hmembers⟩ := object_iff.1 h
  exact object_iff.2 ⟨hnodup.sublist (List.filter_sublist.map _), fun e he =>
    hmembers e (List.mem_filter.1 he).1⟩

theorem ofWrites (h : ∀ e ∈ ms, AssembledMember doc e) :
    Assembled doc (.object (Ordered.ofWrites ms)) := by
  refine object_iff.2 ⟨Ordered.nodup_keys_ofWrites ms, fun e he => ?_⟩
  exact h e (Ordered.mem_of_mem_ofWrites he)

theorem jsonContent (h : Assembled doc v) : Assembled doc (Swagger.jsonContent v) := by
  have hmedia : Assembled doc (.object [("schema", v)]) :=
    empty.cons List.not_mem_nil (by decide) h
  exact empty.cons List.not_mem_nil (by decide) hmedia

theorem requestBodyOf (h : Assembled doc v) : Assembled doc (Swagger.requestBodyOf v) := by
  have hcontent : Assembled doc (Swagger.jsonContent ((v.get? "schema").getD (.object []))) :=
    (h.getD empty).jsonContent
  have hrequired : Assembled doc ((v.get? "required").getD (.bool false)) :=
    h.getD ⟨.bool false, List.nil_subset _⟩
  have hrest : Assembled doc (.object [("content",
      Swagger.jsonContent ((v.get? "schema").getD (.object []))),
      ("required", (v.get? "required").getD (.bool false))]) :=
    (empty.cons List.not_mem_nil (by decide) hrequired).cons (by simp [keys]) (by decide) hcontent
  rw [Swagger.requestBodyOf]
  cases hdescription : v.get? "description" with
  | none => exact hrest
  | some text => exact hrest.cons (by simp [keys]) (by decide) (h.of_get? hdescription)

end Assembled

/-- A conversion of objects that adds no reference and no key twice. -/
structure AddsNone (doc : Json) (f : Json → Json) : Prop where
  object {ms : List (String × Json)} (h : Assembled doc (.object ms)) :
    ∃ ns, f (.object ms) = .object ns ∧ Assembled doc (.object ns)
  other {v : Json} (h : v.members? = none) : f v = v

namespace AddsNone

variable {doc v : Json} {f g : Json → Json}

theorem member (hf : AddsNone doc f) {key : String} (h : AssembledMember doc (key, v)) :
    AssembledMember doc (key, f v) := by
  cases v with
  | object ms =>
      obtain ⟨ns, he, hns⟩ := hf.object h.value
      rw [he]
      exact ⟨hns.wellFormed, hns.references⟩
  | null | bool _ | number _ | string _ | list _ => rwa [hf.other rfl]

theorem value (hf : AddsNone doc f) (h : Assembled doc v) : Assembled doc (f v) :=
  (hf.member (h.under (by decide : "" ≠ "$ref"))).value

theorem mapValues (hf : AddsNone doc f) {ms : List (String × Json)}
    (h : Assembled doc (.object ms)) : Assembled doc (.object (Ordered.mapValues f ms)) := by
  obtain ⟨hnodup, hmembers⟩ := Assembled.object_iff.1 h
  refine Assembled.object_iff.2 ⟨by rwa [Ordered.keys_mapValues], fun e he => ?_⟩
  obtain ⟨e, hmem, rfl⟩ := List.mem_map.1 he
  exact hf.member (hmembers e hmem)

theorem convertParameter (doc : Json) : AddsNone doc Swagger.convertParameter where
  object {ms} h := by
    rcases Swagger.convertParameter_object ms with ⟨keep, he⟩ | ⟨keep, fields, he⟩
    · exact ⟨_, he, h.filter keep⟩
    · exact ⟨_, he, (h.filter keep).put (by decide) (h.filter fields)⟩
  other {v} h := by
    cases v with
    | object ms => cases h
    | null | bool _ | number _ | string _ | list _ => rfl

theorem convertResponse (doc : Json) : AddsNone doc Swagger.convertResponse where
  object {ms} h := by
    rw [Swagger.convertResponse]
    split
    · exact ⟨ms, rfl, h⟩
    · refine ⟨_, rfl, Assembled.swapErase ?_ "examples"⟩
      split
      · next schema hschema =>
          have hcontent : Assembled doc schema :=
            ((Assembled.object_iff.1 h).2 _ (Ordered.mem_of_get? hschema)).value
          exact (h.swapErase "schema").put (by decide) hcontent.jsonContent
      · exact h
  other {v} h := by
    cases v with
    | object ms => cases h
    | null | bool _ | number _ | string _ | list _ => rfl

end AddsNone

theorem Assembled.splitParameters {doc v : Json} (h : Assembled doc v) :
    (∀ q ∈ (Swagger.splitParameters v).1, Assembled doc q) ∧
      ∀ body, (Swagger.splitParameters v).2 = some body → Assembled doc body := by
  have hitems : ∀ p ∈ v.list?.getD [], Assembled doc p := fun p hp => by
    cases v with
    | list xs => exact list_iff.1 h p hp
    | null | bool _ | number _ | string _ | object _ => exact absurd hp List.not_mem_nil
  exact forall_splitItems (fun p hp => (AddsNone.convertParameter doc).value (hitems p hp))
    fun p hp => (hitems p hp).requestBodyOf

namespace AddsNone

variable (doc : Json)

theorem convertOperation : AddsNone doc Swagger.convertOperation where
  object {ms} h := by
    refine ⟨_, Swagger.convertOperation_object ms, Assembled.ofWrites fun e he => ?_⟩
    obtain ⟨⟨key, v⟩, hv, he⟩ := List.mem_flatMap.1 he
    have hmember := (Assembled.object_iff.1 h).2 _ hv
    obtain ⟨hparameters, hbody⟩ := hmember.value.splitParameters
    have hvalue : AssembledMember doc (key, Swagger.convertedValue key v) := by
      unfold Swagger.convertedValue
      split
      · exact (Assembled.list_iff.2 hparameters).under (by decide)
      · split
        · exact ((convertResponse doc).mapValues hmember.value).under (by decide)
        · exact hmember
      · exact hmember
    rw [Swagger.convertedMember] at he
    split at he
    · exact absurd he List.not_mem_nil
    · rcases List.mem_cons.1 he with rfl | he
      · exact hvalue
      · split at he
        · obtain ⟨body, hmem, rfl⟩ := List.mem_map.1 he
          exact (hbody body (Option.mem_toList.1 hmem)).under (by decide)
        · exact absurd he List.not_mem_nil
  other {v} h := by
    cases v with
    | object ms => cases h
    | null | bool _ | number _ | string _ | list _ => rfl

theorem withBody {body : Option Json} (hbody : ∀ b, body = some b → Assembled doc b) :
    AddsNone doc (Swagger.withBody body) where
  object {ms} h := by
    rcases Swagger.withBody_object body ms with ⟨he, -⟩ | ⟨b, hb, -, he⟩
    · exact ⟨ms, he, h⟩
    · exact ⟨_, he, h.put (by decide) (hbody b hb)⟩
  other {v} h := by
    cases v with
    | object ms => cases h
    | null | bool _ | number _ | string _ | list _ => cases body <;> rfl

theorem convertPathItem : AddsNone doc Swagger.convertPathItem where
  object {ms} h := by
    refine ⟨_, Swagger.convertPathItem_object ms, ?_⟩
    obtain ⟨hnodup, -⟩ := Assembled.object_iff.1 h
    obtain ⟨hrest, hmembers⟩ := Assembled.object_iff.1 (h.swapErase "parameters")
    have hentry : ∀ e ∈ Ordered.swapErase ms "parameters",
        AssembledMember doc (Swagger.convertEntry (Swagger.sharedBody ms) e) := by
      intro e he
      rw [Swagger.convertEntry]
      split
      · refine (withBody doc fun b hb => ?_).member ((convertOperation doc).member (hmembers e he))
        obtain ⟨parameters, hparameters, hb⟩ := Option.bind_eq_some_iff.1 hb
        exact (h.of_get? (v := .object ms) hparameters).splitParameters.2 b hb
      · exact hmembers e he
    have hentries : Assembled doc (.object ((Ordered.swapErase ms "parameters").map
        (Swagger.convertEntry (Swagger.sharedBody ms)))) :=
      Assembled.object_iff.2
        ⟨by rwa [Swagger.keys_map_convertEntry], List.forall_mem_map.2 hentry⟩
    rw [Swagger.sharedMember]
    split
    · next parameters hparameters =>
        have hlist := (h.of_get? (v := .object ms) hparameters).splitParameters.1
        refine hentries.cons ?_ (by decide) (Assembled.list_iff.2 hlist)
        rw [Swagger.keys_map_convertEntry]
        exact not_mem_keys_swapErase hnodup "parameters"
    · exact hentries
  other {v} h := by
    cases v with
    | object ms => cases h
    | null | bool _ | number _ | string _ | list _ => rfl

end AddsNone

/-! ### The whole document -/

theorem keys_tableMember_sublist (doc : Json) (key : String) (f : Json → Json) :
    (keys (tableMember doc key f)).Sublist [key] := by
  rw [tableMember]
  split
  · exact .refl _
  · exact List.nil_sublist _

theorem keys_copiedMember_sublist (doc : Json) (source key : String) :
    (keys (copiedMember doc source key)).Sublist [key] := by
  rw [copiedMember]
  split
  · exact .refl _
  · exact List.nil_sublist _

theorem keys_unlessEmpty_sublist {α : Type} (key : String) (write : List α → Json) (xs : List α) :
    (keys (unlessEmpty key write xs)).Sublist [key] := by
  cases xs with
  | nil => exact List.nil_sublist _
  | cons x xs => exact .refl _

theorem keys_componentsOf_sublist (doc : Json) :
    (keys (componentsOf doc)).Sublist ["schemas", "parameters", "responses"] := by
  rw [componentsOf, Ordered.keys_append, Ordered.keys_append]
  exact ((keys_copiedMember_sublist ..).append (keys_tableMember_sublist ..)).append
    (keys_tableMember_sublist ..)

theorem keys_convertedMembers_sublist (doc : Json) : (keys (convertedMembers doc)).Sublist
    ["openapi", "info", "servers", "paths", "components", "tags", "externalDocs"] := by
  simp only [convertedMembers, Ordered.keys_append]
  exact (((((List.Sublist.refl ["openapi", "info"]).append (keys_unlessEmpty_sublist ..)).append
    (keys_tableMember_sublist ..)).append (keys_unlessEmpty_sublist ..)).append
    (keys_copiedMember_sublist ..)).append (keys_copiedMember_sublist ..)

section document

variable {doc : Json}

theorem assembled_of_mem_tableMember (h : Assembled doc doc) {f : Json → Json}
    (hf : AddsNone doc f) {key : String} :
    ∀ e ∈ tableMember doc key f, Assembled doc e.2 := by
  intro e he
  rw [tableMember] at he
  split at he
  · next ms hms =>
      obtain ⟨v, hv, hms⟩ := Option.bind_eq_some_iff.1 hms
      obtain rfl := Json.eq_of_members? hms
      obtain rfl := List.mem_singleton.1 he
      exact hf.mapValues (h.of_get? hv)
  · exact absurd he List.not_mem_nil

theorem assembled_of_mem_copiedMember (h : Assembled doc doc) {source key : String} :
    ∀ e ∈ copiedMember doc source key, Assembled doc e.2 := by
  intro e he
  rw [copiedMember] at he
  split at he
  · next v hv =>
      obtain rfl := List.mem_singleton.1 he
      exact h.of_get? hv
  · exact absurd he List.not_mem_nil

theorem assembled_of_mem_unlessEmpty {α : Type} {key : String} {write : List α → Json}
    {xs : List α} (h : Assembled doc (write xs)) :
    ∀ e ∈ unlessEmpty key write xs, Assembled doc e.2 := by
  cases xs with
  | nil => exact fun _ he => absurd he List.not_mem_nil
  | cons x xs => exact List.forall_mem_singleton.2 h

theorem assembled_componentsOf (h : Assembled doc doc) :
    Assembled doc (.object (componentsOf doc)) := by
  have hkeys := keys_componentsOf_sublist doc
  refine .of_values (hkeys.nodup (by decide)) (fun href => absurd (hkeys.mem href) (by decide)) ?_
  rw [componentsOf, List.forall_mem_append, List.forall_mem_append]
  exact ⟨⟨assembled_of_mem_copiedMember h, assembled_of_mem_tableMember h (.convertParameter doc)⟩,
    assembled_of_mem_tableMember h (.convertResponse doc)⟩

theorem assembled_serversOf (doc v : Json) : Assembled doc (.list (serversOf v)) := by
  have hserver : ∀ url, Assembled doc (Swagger.server url) := fun url =>
    Assembled.empty.cons List.not_mem_nil (by decide) ⟨.string url, List.nil_subset _⟩
  refine Assembled.list_iff.2 fun s hs => ?_
  rw [serversOf] at hs
  split at hs
  · obtain ⟨scheme, -, rfl⟩ := List.mem_map.1 hs
    exact hserver _
  · split at hs
    · exact absurd hs List.not_mem_nil
    · obtain rfl := List.mem_singleton.1 hs
      exact hserver _

/-- **Parts are taken over without a new reference.** -/
theorem assembled_convertedMembers (hdoc : doc.WellFormed) :
    Assembled doc (.object (convertedMembers doc)) := by
  have h : Assembled doc doc := ⟨hdoc, List.Subset.refl _⟩
  have hkeys := keys_convertedMembers_sublist doc
  refine .of_values (hkeys.nodup (by decide)) (fun href => absurd (hkeys.mem href) (by decide)) ?_
  simp only [convertedMembers, List.forall_mem_append, List.forall_mem_cons]
  exact ⟨⟨⟨⟨⟨⟨⟨.string _, List.nil_subset _⟩, h.getD .empty, fun _ he => absurd he List.not_mem_nil⟩,
    assembled_of_mem_unlessEmpty (assembled_serversOf doc doc)⟩,
    assembled_of_mem_tableMember h (.convertPathItem doc)⟩,
    assembled_of_mem_unlessEmpty (assembled_componentsOf h)⟩,
    assembled_of_mem_copiedMember h⟩, assembled_of_mem_copiedMember h⟩

end document

end EndpointBindings
