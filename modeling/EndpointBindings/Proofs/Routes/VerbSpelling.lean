import EndpointBindings.Proofs.Dialects.Items
import EndpointBindings.Proofs.Dialects.Modernize
import EndpointBindings.Proofs.Routes.OutsidePaths
import EndpointBindings.Proofs.Tables.Related

/-!
# The spelling of verbs

A key of a path item names a verb in any letter case, and whoever reads a document of version 3
looks at the verb alone: the same document with its verb keys in other letters has the same API
(`Respelled.api_eq`).  What it cannot have is a reference that goes through such a key, since a
pointer names keys letter by letter.

The conversion from Swagger 2 looks at the letters.  Only lower-case keys are operations for it, so
that the document keeps its routes and their verbs under another spelling, but keeps what the
operations say only where the lower-case keys stay the same ones (`verb_spelling`); an operation
under `GET` has neither response nor body (`swagger_verb_case`).
-/

namespace EndpointBindings

open Ordered (get? keys)

/-! ## Documents that differ in the spelling of verbs -/

/-- Keys that are the same but for the letter case of a verb. -/
def SameVerb (k k' : String) : Prop :=
  k = k' ∨ (Text.lowerAscii k = Text.lowerAscii k' ∧ (Verb.ofKey? k).isSome)

/-- Such keys of which both or neither are in lower case. -/
def SameCase (k k' : String) : Prop :=
  SameVerb k k' ∧ (k ∈ Verb.keys ↔ k' ∈ Verb.keys)

namespace Json

/-- Objects with related keys and related values, place by place; any other tree is related to
itself alone. -/
inductive Alike (K : String → String → Prop) (R : Json → Json → Prop) : Json → Json → Prop
  | object {ms ms' : List (String × Json)}
      (h : List.Forall₂ (fun e e' => K e.1 e'.1 ∧ R e.2 e'.2) ms ms') :
      Alike K R (.object ms) (.object ms')
  | other {v : Json} (h : v.members? = none) : Alike K R v v

/-- Members of a root that are the same, except that below `paths` the items have related keys with
related values. -/
def AlikeMember (K : String → String → Prop) (R : Json → Json → Prop) (e e' : String × Json) :
    Prop :=
  e.1 = e'.1 ∧ if e.1 = "paths" then Alike Eq (Alike K R) e.2 e'.2 else e.2 = e'.2

/-- A document and one with other keys in its path items. -/
def Respelled (K : String → String → Prop) (R : Json → Json → Prop) (v v' : Json) : Prop :=
  ∃ ms ms', v = .object ms ∧ v' = .object ms' ∧ List.Forall₂ (AlikeMember K R) ms ms'

end Json

open Swagger (BothReadable bothReadable_convertEntry bothReadable_modernizeAt)
open Json (Alike AlikeMember Respelled GoesThrough)

theorem SameVerb.ofKey?_eq {k k' : String} (h : SameVerb k k') :
    Verb.ofKey? k = Verb.ofKey? k' := by
  rcases h with rfl | ⟨hlower, -⟩
  · rfl
  · rw [Verb.ofKey?, Verb.ofKey?, hlower]

/-- A key that names no verb stays what it is. -/
theorem SameVerb.eq_iff {k k' key : String} (h : SameVerb k k') (hkey : Verb.ofKey? key = none) :
    k = key ↔ k' = key := by
  have heq := h.ofKey?_eq
  rcases h with rfl | ⟨-, hverb⟩
  · rfl
  · constructor
    · rintro rfl
      rw [hkey] at hverb
      cases hverb
    · rintro rfl
      rw [heq, hkey] at hverb
      cases hverb

/-- A relation of keys that tells at most the spellings of one verb apart. -/
structure Spelling (K : String → String → Prop) : Prop where
  refl : ∀ k, K k k
  sameVerb : ∀ {k k'}, K k k' → SameVerb k k'

theorem Spelling.eq : Spelling Eq := ⟨fun _ => rfl, .inl⟩

theorem Spelling.ofVerb : Spelling SameVerb := ⟨fun _ => .inl rfl, id⟩

theorem Spelling.ofCase : Spelling SameCase := ⟨fun _ => ⟨.inl rfl, Iff.rfl⟩, And.left⟩

theorem Spelling.keeps {K : String → String → Prop} (hK : Spelling K) {R : Json → Json → Prop}
    {key : String} (hkey : Verb.ofKey? key = none) :
    Ordered.Keeps (fun e e' : String × Json => K e.1 e'.1 ∧ R e.2 e'.2) key :=
  fun _ _ he => (hK.sameVerb he.1).eq_iff hkey

variable {K : String → String → Prop} {R R' : Json → Json → Prop} {v v' : Json}

theorem Json.Alike.refl (hK : Spelling K) (hR : ∀ v, R v v) (v : Json) : Alike K R v v := by
  cases v with
  | object ms => exact .object (List.forall₂_same.2 fun e _ => ⟨hK.refl e.1, hR e.2⟩)
  | null | bool _ | number _ | string _ | list _ => exact .other rfl

theorem Json.AlikeMember.refl (hK : Spelling K) (hR : ∀ v, R v v) (e : String × Json) :
    AlikeMember K R e e := by
  refine ⟨rfl, ?_⟩
  split
  · exact .refl .eq (.refl hK hR) e.2
  · rfl

/-- Members of related roots are the same at every key but `paths`. -/
theorem Json.Respelled.get?_eq (h : Respelled K R v v') {key : String} (hkey : key ≠ "paths") :
    v.get? key = v'.get? key := by
  obtain ⟨ms, ms', rfl, rfl, h⟩ := h
  refine Ordered.get?_eq_of_rel (fun e e' he => by rw [he.1]) (fun u w huw => ?_) h
  have hvalue := huw.2
  rwa [if_neg hkey] at hvalue

/-- At `paths` they hold related tables. -/
theorem Json.Respelled.get?_paths (h : Respelled K R v v') :
    Option.Rel (Alike Eq (Alike K R)) (v.get? "paths") (v'.get? "paths") := by
  obtain ⟨ms, ms', rfl, rfl, h⟩ := h
  have hrel := Ordered.get?_rel (k := "paths") (fun e e' he => by rw [he.1]) h
  show Option.Rel _ (Ordered.get? ms "paths") (Ordered.get? ms' "paths")
  generalize Ordered.get? ms "paths" = table, Ordered.get? ms' "paths" = table' at hrel ⊢
  cases hrel with
  | none => exact .none
  | some hrel => exact .some hrel.2

theorem Json.Respelled.sameOutsidePaths (h : Respelled K R v v') : Json.SameOutsidePaths v v' := by
  have hget : ∀ key ≠ "paths", v.get? key = v'.get? key := fun key hkey => h.get?_eq hkey
  obtain ⟨ms, ms', rfl, rfl, -⟩ := h
  exact .object hget

/-! ## The same after the rewrite of the tree -/

section modernize

open Swagger

theorem Json.Alike.modernize (hK : Spelling K)
    (hR : ∀ k k' v v', K k k' → R v v' → R' (modernizeAt k v) (modernizeAt k' v'))
    (h : Alike K R v v') : Alike K R' (Swagger.modernize v) (Swagger.modernize v') := by
  cases h with
  | @object ms ms' h =>
      have hmembers : List.Forall₂ (fun e e' => K e.1 e'.1 ∧ R' e.2 e'.2) (modernizeMembers ms)
          (modernizeMembers ms') := by
        rw [modernizeMembers_eq, modernizeMembers_eq, List.forall₂_map_left_iff,
          List.forall₂_map_right_iff]
        exact h.imp fun e e' he => ⟨he.1, hR _ _ _ _ he.1 he.2⟩
      exact .object (renameNullable_rel (hK.keeps rfl) (hK.keeps rfl)
        (fun v w hvw => ⟨hK.refl _, hvw.2⟩) hmembers)
  | other h =>
      cases v with
      | object _ => cases h
      | null | bool _ | number _ | string _ | list _ => exact .other rfl

theorem Json.Alike.modernizeAt (hK : Spelling K)
    (hR : ∀ k k' v v', K k k' → R v v' → R' (modernizeAt k v) (modernizeAt k' v')) (key : String)
    (h : Alike K R v v') : Alike K R' (Swagger.modernizeAt key v) (Swagger.modernizeAt key v') := by
  cases h with
  | object h => exact Alike.modernize hK hR (.object h)
  | other h =>
      refine .other ?_
      cases v with
      | object _ => cases h
      | string target =>
          rw [Swagger.modernizeAt]
          split <;> rfl
      | null | bool _ | number _ | list _ => rfl

theorem Json.Respelled.modernize (hK : Spelling K)
    (hR : ∀ k k' v v', K k k' → R v v' → R' (modernizeAt k v) (modernizeAt k' v'))
    (h : Respelled K R v v') : Respelled K R' (Swagger.modernize v) (Swagger.modernize v') := by
  obtain ⟨ms, ms', rfl, rfl, h⟩ := h
  have hkeeps : ∀ key, Ordered.Keeps (AlikeMember K R') key := fun key e e' he => by rw [he.1]
  refine ⟨_, _, rfl, rfl, renameNullable_rel (hkeeps _) (hkeeps _) (fun u w huw => ?_) ?_⟩
  · exact ⟨rfl, huw.2⟩
  · rw [modernizeMembers_eq, modernizeMembers_eq, List.forall₂_map_left_iff,
      List.forall₂_map_right_iff]
    refine h.imp ?_
    rintro ⟨key, u⟩ ⟨_, u'⟩ ⟨rfl, hu⟩
    refine ⟨rfl, ?_⟩
    dsimp only at hu ⊢
    split
    · next hpaths =>
        rw [if_pos hpaths] at hu
        refine Alike.modernizeAt .eq ?_ key hu
        rintro k _ w w' rfl hw
        exact hw.modernizeAt hK hR k
    · next hpaths =>
        rw [if_neg hpaths] at hu
        rw [hu]

end modernize

/-! ## The same after the conversion -/

section conversion

open Swagger

theorem Json.Alike.convertPathItem (hK : Spelling K) (hR : ∀ v, R v v)
    (hentry : ∀ k k' body v, K k k' →
      R (convertEntry body (k, v)).2 (convertEntry body (k', v)).2)
    (h : Alike K Eq v v') :
    Alike K R (Swagger.convertPathItem v) (Swagger.convertPathItem v') := by
  cases h with
  | @object ms ms' h =>
      have hkeeps : Ordered.Keeps (fun e e' : String × Json => K e.1 e'.1 ∧ e.2 = e'.2)
          "parameters" := hK.keeps rfl
      have hshared : Ordered.get? ms "parameters" = Ordered.get? ms' "parameters" :=
        Ordered.get?_eq_of_rel hkeeps (fun v w hvw => hvw.2) h
      have hmember : sharedMember ms = sharedMember ms' := by
        rw [sharedMember, sharedMember, hshared]
      have hbody : sharedBody ms = sharedBody ms' := by rw [sharedBody, sharedBody, hshared]
      rw [convertPathItem_object, convertPathItem_object, hmember, hbody]
      refine .object (List.rel_append (List.forall₂_same.2 fun e _ => ⟨hK.refl e.1, hR e.2⟩) ?_)
      rw [List.forall₂_map_left_iff, List.forall₂_map_right_iff]
      refine (Ordered.swapErase_rel hkeeps h).imp ?_
      rintro ⟨k, v⟩ ⟨k', _⟩ ⟨hk, rfl⟩
      rw [convertEntry_fst, convertEntry_fst]
      exact ⟨hk, hentry k k' _ v hk⟩
  | other h =>
      cases v with
      | object _ => cases h
      | null | bool _ | number _ | string _ | list _ => exact .other rfl

/-- The paths of a converted document. -/
theorem Json.Respelled.tableMember_paths (hK : Spelling K) (hR : ∀ v, R v v)
    (hentry : ∀ k k' body v, K k k' →
      R (convertEntry body (k, v)).2 (convertEntry body (k', v)).2)
    (h : Respelled K Eq v v') : List.Forall₂ (AlikeMember K R)
      (tableMember v "paths" Swagger.convertPathItem)
      (tableMember v' "paths" Swagger.convertPathItem) := by
  have hpaths := h.get?_paths
  rw [tableMember, tableMember]
  generalize v.get? "paths" = table, v'.get? "paths" = table' at hpaths ⊢
  cases hpaths with
  | none => exact .nil
  | some hpaths =>
      cases hpaths with
      | object hitems =>
          refine .cons ⟨rfl, .object ?_⟩ .nil
          rw [Ordered.mapValues, Ordered.mapValues, List.forall₂_map_left_iff,
            List.forall₂_map_right_iff]
          exact hitems.imp fun e e' he => ⟨he.1, he.2.convertPathItem hK hR hentry⟩
      | other hother =>
          rw [Option.bind_some, hother]
          exact .nil

/-- Everything else that the conversion takes from a document is the same. -/
theorem Json.Respelled.converted_parts (h : Respelled K R v v') :
    v.get? "info" = v'.get? "info" ∧ serversOf v = serversOf v' ∧ componentsOf v = componentsOf v' ∧
      copiedMember v "tags" "tags" = copiedMember v' "tags" "tags" ∧
      copiedMember v "externalDocs" "externalDocs" =
        copiedMember v' "externalDocs" "externalDocs" := by
  have hget : ∀ key ≠ "paths", v.get? key = v'.get? key := fun key hkey => h.get?_eq hkey
  refine ⟨hget _ (by decide), ?_, ?_, ?_, ?_⟩
  · rw [serversOf, serversOf, schemesOf, schemesOf, hget "basePath" (by decide),
      hget "host" (by decide), hget "schemes" (by decide)]
  · rw [componentsOf, componentsOf, copiedMember, copiedMember, hget "definitions" (by decide)]
    simp only [tableMember, hget "parameters" (by decide), hget "responses" (by decide)]
  · rw [copiedMember, copiedMember, hget "tags" (by decide)]
  · rw [copiedMember, copiedMember, hget "externalDocs" (by decide)]

theorem Json.Respelled.convert (hK : Spelling K) (hR : ∀ v, R v v)
    (hentry : ∀ k k' body v, K k k' →
      R (convertEntry body (k, v)).2 (convertEntry body (k', v)).2)
    (hmodernize : ∀ k k' v v', K k k' → R v v' → R (modernizeAt k v) (modernizeAt k' v'))
    (h : Respelled K Eq v v') : Respelled K R (Swagger.convert v) (Swagger.convert v') := by
  have hsame : ∀ ms : List (String × Json), List.Forall₂ (AlikeMember K R) ms ms :=
    fun ms => List.forall₂_same.2 fun e _ => .refl hK hR e
  obtain ⟨hinfo, hservers, hcomponents, htags, hdocs⟩ := h.converted_parts
  rw [Swagger.convert, Swagger.convert, hinfo, hservers, hcomponents, htags, hdocs]
  refine Respelled.modernize hK hmodernize ⟨_, _, rfl, rfl, ?_⟩
  have hpaths := h.tableMember_paths hK hR hentry
  exact List.rel_append (List.rel_append (List.rel_append (List.rel_append (hsame _) hpaths)
    (hsame _)) (hsame _)) (hsame _)

end conversion

/-! ## The same in the typed view -/

/-- Path items with related entries, and the same shared parameters when related values are
equal. -/
structure AlikeItem (K : String → String → Prop) (R : Json → Json → Prop)
    (item item' : PathItem) : Prop where
  entries : List.Forall₂ (fun e e' => K e.1 e'.1 ∧ R e.2 e'.2) item.entries item'.entries
  parameters : (∀ v v', R v v' → v = v') → item.parameters = item'.parameters

theorem PathItem.ofJson?_rel (hK : Spelling K) (h : Alike K R v v') :
    Option.Rel (AlikeItem K R) (ofJson? v) (ofJson? v') := by
  cases h with
  | @object ms ms' h =>
      have hkeeps : Ordered.Keeps (fun e e' : String × Json => K e.1 e'.1 ∧ R e.2 e'.2)
          "parameters" := hK.keeps rfl
      refine .some ⟨List.rel_filter (fun e e' he => ?_) h, fun hR => ?_⟩
      · simpa using not_congr (hkeeps e e' he)
      · have hget : get? ms "parameters" = get? ms' "parameters" :=
          Ordered.get?_eq_of_rel hkeeps (fun u w huw => hR u w huw.2) h
        show ((get? ms "parameters").bind Json.list?).getD [] = _
        rw [hget]
        rfl
  | other h =>
      rw [ofJson?, h]
      exact .none

/-- The paths of related documents are the same, with related items. -/
theorem Json.Respelled.paths {ms ms' : List (String × Json)} (hK : Spelling K)
    (h : Respelled K R (.object ms) (.object ms')) :
    List.Forall₂ (fun p p' => p.1 = p'.1 ∧ AlikeItem K R p.2 p'.2) (Spec.ofRecord ms).paths
      (Spec.ofRecord ms').paths := by
  have hpaths : Option.Rel (Alike Eq (Alike K R)) (Ordered.get? ms "paths")
    (Ordered.get? ms' "paths") := h.get?_paths
  show List.Forall₂ _ (Json.table ms "paths" PathItem.ofJson?)
    (Json.table ms' "paths" PathItem.ofJson?)
  rw [Json.table, Json.table, Json.field?, Json.field?]
  generalize Ordered.get? ms "paths" = table, Ordered.get? ms' "paths" = table' at hpaths ⊢
  cases hpaths with
  | none => exact .nil
  | some hpaths =>
      cases hpaths with
      | object hitems =>
          exact Json.entries_rel (fun e e' he => ⟨he.1, PathItem.ofJson?_rel hK he.2⟩) hitems
      | other hother =>
          rw [Option.bind_some, hother]
          exact .nil

/-! ## Routes -/

theorem AlikeItem.keys_endpointsOf (hK : Spelling K) (hR : ∀ v v', R v v' → BothReadable v v')
    {item item' : PathItem} (h : AlikeItem K R item item') (doc doc' : Document) :
    keys (endpointsOf doc item) = keys (endpointsOf doc' item') := by
  rw [EndpointBindings.keys_endpointsOf, EndpointBindings.keys_endpointsOf]
  refine congrArg _ (Ordered.filterMap_eq_of_rel ?_ h.entries)
  intro e e' he
  rw [verbAt?, verbAt?, hR _ _ he.2, (hK.sameVerb he.1).ofKey?_eq]

theorem AlikeItem.endpointsOf_eq (hK : Spelling K) (hR : ∀ v v', R v v' → v = v')
    {item item' : PathItem} (h : AlikeItem K R item item') (doc : Document) :
    endpointsOf doc item = endpointsOf doc item' := by
  rw [endpointsOf, endpointsOf, h.parameters hR]
  refine congrArg _ (Ordered.filterMap_eq_of_rel ?_ h.entries)
  rintro ⟨k, u⟩ ⟨k', u'⟩ ⟨hk, hu⟩
  rw [endpointAt?, endpointAt?, (hK.sameVerb hk).ofKey?_eq, hR u u' hu]

/-- The routes of a document with their verbs. -/
theorem Document.map_keys_routes (doc : Document) :
    doc.api.routes.map (fun route => (route.1, keys route.2)) =
      Ordered.ofWrites (doc.spec.paths.map fun p =>
        (normalizePath p.1, keys (endpointsOf doc p.2))) := by
  show Ordered.mapValues keys (routesOf doc) = _
  rw [routesOf, Ordered.mapValues_ofWrites, Ordered.mapValues, List.map_map]
  rfl

/-- Related documents of version 3, with references that do not go through their paths: the base
address and the component schemas are the same, and so are the routes and their verbs when related
values are read alike, and the endpoints when they are equal. -/
theorem Json.Respelled.api_eq {ms ms' : List (String × Json)} (hK : Spelling K)
    (h : Respelled K R (.object ms) (.object ms'))
    (hrefs : ∀ r ∈ (Json.object ms).references, ¬ GoesThrough "paths" r) {doc doc' : Document}
    (hdoc : doc = ⟨.object ms, Spec.ofRecord ms⟩)
    (hdoc' : doc' = ⟨.object ms', Spec.ofRecord ms'⟩) :
    doc'.api.baseUrl = doc.api.baseUrl ∧ doc'.api.schemas = doc.api.schemas ∧
    ((∀ v v', R v v' → BothReadable v v') →
      doc'.api.routes.map (fun route => (route.1, keys route.2)) =
        doc.api.routes.map fun route => (route.1, keys route.2)) ∧
    ((∀ v v', R v v' → v = v') → doc'.api.routes = doc.api.routes) := by
  subst hdoc hdoc'
  have hpaths := h.paths hK
  have hread : ∀ ms, Document.ofJson (.object ms) = .ok ⟨.object ms, Spec.ofRecord ms⟩ :=
    fun ms => Document.ofJson_eq_ok_iff.2 ⟨ms, rfl, rfl⟩
  obtain ⟨hbase, hschemas⟩ := h.sameOutsidePaths.api_eq hrefs (hread ms) (hread ms')
  refine ⟨hbase, hschemas, fun hR => ?_, fun hR => ?_⟩
  · rw [Document.map_keys_routes, Document.map_keys_routes]
    refine congrArg _ (Ordered.map_eq_of_rel (fun p p' hp => ?_) hpaths).symm
    rw [hp.1, hp.2.keys_endpointsOf hK hR]
  · calc routesOf ⟨.object ms', Spec.ofRecord ms'⟩
        = Ordered.ofWrites ((Spec.ofRecord ms).paths.map fun p =>
            (normalizePath p.1, endpointsOf ⟨.object ms', Spec.ofRecord ms'⟩ p.2)) := by
          refine congrArg Ordered.ofWrites (Ordered.map_eq_of_rel (fun p p' hp => ?_) hpaths).symm
          rw [hp.1, hp.2.endpointsOf_eq hK hR]
      _ = routesOf ⟨.object ms, Spec.ofRecord ms⟩ :=
          congrArg Ordered.ofWrites (List.map_congr_left fun p hp => by
            rw [← h.sameOutsidePaths.endpointsOf_eq hrefs (hread ms) (hread ms') hp])

/-! ## The theorem -/

theorem Json.Respelled.mono {K' : String → String → Prop} (hK : ∀ k k', K k k' → K' k k')
    (hR : ∀ v v', R v v' → R' v v') (h : Respelled K R v v') : Respelled K' R' v v' := by
  have halike : ∀ {v v'}, Alike K R v v' → Alike K' R' v v' := by
    intro v v' h
    cases h with
    | object h => exact .object (h.imp fun e e' he => ⟨hK _ _ he.1, hR _ _ he.2⟩)
    | other h => exact .other h
  obtain ⟨ms, ms', rfl, rfl, h⟩ := h
  refine ⟨ms, ms', rfl, rfl, h.imp ?_⟩
  rintro ⟨key, u⟩ ⟨_, u'⟩ ⟨rfl, hu⟩
  refine ⟨rfl, ?_⟩
  dsimp only at hu ⊢
  split
  · next hpaths =>
      rw [if_pos hpaths] at hu
      cases hu with
      | object h => exact .object (h.imp fun p p' hp => ⟨hp.1, halike hp.2⟩)
      | other h => exact .other h
  · next hpaths => rwa [if_neg hpaths] at hu

/-- The conversions of documents with other verbs are read alike. -/
theorem Json.Respelled.convert_readable (h : Respelled SameVerb Eq v v') :
    Respelled SameVerb BothReadable (Swagger.convert v) (Swagger.convert v') := by
  refine h.convert .ofVerb (fun _ => rfl) (fun k k' body v hk => ?_) fun k k' v v' hk hv => ?_
  · exact (bothReadable_convertEntry body k v).symm.trans (bothReadable_convertEntry body k' v)
  · exact (bothReadable_modernizeAt k v).symm.trans (hv.trans (bothReadable_modernizeAt k' v'))

/-- They have the same values when the same keys are in lower case. -/
theorem Json.Respelled.convert_eq (h : Respelled SameCase Eq v v') :
    Respelled SameVerb Eq (Swagger.convert v) (Swagger.convert v') := by
  refine (h.convert .ofCase (fun _ => rfl) (fun k k' body v hk => ?_)
    fun k k' v v' hk hv => ?_).mono (fun _ _ => And.left) fun _ _ => id
  · have hcontains : Verb.keys.contains k = Verb.keys.contains k' := by
      simpa only [List.contains_iff_mem] using Bool.eq_iff_iff.2 (by simpa using hk.2)
    rw [Swagger.convertEntry, Swagger.convertEntry, hcontains]
    split <;> rfl
  · subst hv
    cases v with
    | string target =>
        have href : k = "$ref" ↔ k' = "$ref" := hk.1.eq_iff rfl
        simp only [Swagger.modernizeAt, href]
    | null | bool _ | number _ | list _ | object _ => rfl

/-- The tree of version 3 of a document with other spellings. -/
theorem exists_toOpenApi3_respelled {tree : Json} (h : Respelled SameVerb Eq v v')
    (htree : toOpenApi3 v = .ok tree) : ∃ tree', toOpenApi3 v' = .ok tree' ∧
      Respelled SameVerb BothReadable tree tree' ∧
      (Version.detect v = .ok .openApi3 ∨ Respelled SameCase Eq v v' →
        Respelled SameVerb Eq tree tree') := by
  have hversion : Version.detect v' = Version.detect v := h.sameOutsidePaths.detect_eq.symm
  have hread : ∀ v v' : Json, v = v' → BothReadable v v' := by
    rintro v _ rfl
    rfl
  cases hdetect : Version.detect v with
  | error failure =>
      rw [toOpenApi3_of_error hdetect] at htree
      cases htree
  | ok version =>
      cases version with
      | openApi3 =>
          rw [toOpenApi3_of_openApi3 hdetect] at htree
          cases htree
          exact ⟨v', toOpenApi3_of_openApi3 (hversion.trans hdetect),
            h.mono (fun _ _ => id) hread, fun _ => h⟩
      | swagger2 =>
          rw [toOpenApi3_of_swagger2 hdetect] at htree
          cases htree
          exact ⟨_, toOpenApi3_of_swagger2 (hversion.trans hdetect), h.convert_readable,
            fun hsame => (hsame.resolve_left nofun).convert_eq⟩

/-- **Verbs may be spelled in any case.**  Take a document and one that differs from it in the
letter case of verb keys alone, and let no reference of its tree of version 3 go through the paths.
Both are accepted, with the same base address, the same component schemas, the same routes and under
each the same verbs in the same order.  In a document of version 3 the APIs are the same; and so
they are in Swagger 2 when the same keys are in lower case, for the conversion looks at no
others. -/
theorem verb_spelling {tree : Json} (h : Respelled SameVerb Eq v v')
    (htree : toOpenApi3 v = .ok tree) (hrefs : ∀ r ∈ tree.references, ¬ GoesThrough "paths" r) :
    ∃ api api', Api.ofJson v = .ok api ∧ Api.ofJson v' = .ok api' ∧
      api'.baseUrl = api.baseUrl ∧ api'.schemas = api.schemas ∧
      api'.routes.map (fun route => (route.1, keys route.2)) =
        api.routes.map (fun route => (route.1, keys route.2)) ∧
      (Version.detect v = .ok .openApi3 ∨ Respelled SameCase Eq v v' → api' = api) := by
  obtain ⟨tree', htree', hverbs, hequal⟩ := exists_toOpenApi3_respelled h htree
  obtain ⟨ms, ms', rfl, rfl, hmembers⟩ := id hverbs
  refine ⟨_, _, Api.ofJson_of_object htree, Api.ofJson_of_object htree', ?_⟩
  obtain ⟨hbase, hschemas, hroutes, -⟩ := hverbs.api_eq .ofVerb hrefs rfl rfl
  refine ⟨hbase, hschemas, hroutes fun _ _ => id, fun hsame => ?_⟩
  have hsameRoutes := ((hequal hsame).api_eq .ofVerb hrefs rfl rfl).2.2.2 fun _ _ => id
  have hext : ∀ a b : Api, a.baseUrl = b.baseUrl → a.schemas = b.schemas → a.routes = b.routes →
      a = b := by
    rintro ⟨_, _, _⟩ ⟨_, _, _⟩ rfl rfl rfl
    rfl
  exact hext _ _ hbase hschemas hsameRoutes

/-! ### Documents with one operation -/

/-- What the operation answers in version 3. -/
def pingOperation : Json :=
  .object [("responses", .object [("200", .object [("content", .object [("application/json",
    .object [("schema", .object [("type", .string "string")])])])])])]

/-- A document of version 3 with an operation under a key. -/
def pingTree (key : String) : Json :=
  .object [("openapi", .string "3.0.0"),
    ("paths", .object [("/ping", .object [(key, pingOperation)])])]

theorem ping_spelling :
    Respelled SameVerb Eq (pingTree "get") (pingTree "Get") ∧
    toOpenApi3 (pingTree "get") = .ok (pingTree "get") ∧
    (∀ r ∈ (pingTree "get").references, ¬ GoesThrough "paths" r) ∧
    Api.ofJson (pingTree "Get") = Api.ofJson (pingTree "get") := by
  have h : Respelled SameVerb Eq (pingTree "get") (pingTree "Get") := by
    refine ⟨_, _, rfl, rfl, .cons ⟨rfl, rfl⟩ (.cons ⟨rfl, .object (.cons ⟨rfl, .object ?_⟩ .nil)⟩
      .nil)⟩
    exact .cons ⟨.inr ⟨by decide, by decide⟩, rfl⟩ .nil
  have hrefs : ∀ r ∈ (pingTree "get").references, ¬ GoesThrough "paths" r := by
    intro r hr
    cases hr
  obtain ⟨api, api', hapi, hapi', -, -, -, heq⟩ := verb_spelling h rfl hrefs
  exact ⟨h, rfl, hrefs, by rw [hapi, hapi', heq (.inl rfl)]⟩

/-- The same document in Swagger 2. -/
def pingSwagger (key : String) : Json :=
  .object [("swagger", .string "2.0"),
    ("paths", .object [("/ping", .object [(key, .object [("responses", .object [("200",
      .object [("schema", .object [("type", .string "string")])])])])])])]

/-- In Swagger 2 an operation under a key in capitals answers nothing. -/
theorem swagger_verb_case :
    Respelled SameVerb Eq (pingSwagger "get") (pingSwagger "GET") ∧
    ∃ api api', Api.ofJson (pingSwagger "get") = .ok api ∧
      Api.ofJson (pingSwagger "GET") = .ok api' ∧
      api.routes =
        [("/ping", [(.get, { verb := .get, response := some (.ofKind (.string {})) })])] ∧
      api'.routes = [("/ping", [(.get, { verb := .get })])] := by
  refine ⟨⟨_, _, rfl, rfl, .cons ⟨rfl, rfl⟩ (.cons ⟨rfl, .object (.cons ⟨rfl, .object ?_⟩ .nil)⟩
    .nil)⟩, _, _, rfl, rfl, rfl, rfl⟩
  exact .cons ⟨.inr ⟨by decide, by decide⟩, rfl⟩ .nil

end EndpointBindings
