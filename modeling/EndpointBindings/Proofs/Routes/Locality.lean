import EndpointBindings.Proofs.Document.Acceptance
import EndpointBindings.Proofs.References.Components
import EndpointBindings.Proofs.Routes.OutsidePaths
import EndpointBindings.Proofs.Tables.Related

/-!
# Damage stays local

A document is read so that a part of it that cannot be read is passed over by itself.  Take two
documents of version 3 that differ in one path item, whatever stands there in either of them.  Both
are accepted, and every route but that of the path is the same.  When they differ under one key of
the item only, so are the endpoints of the path for every verb but the one that the key names
(`damage_local`).

What could carry a difference elsewhere is a reference through `paths`, and so there must be none.
-/

namespace EndpointBindings

open Ordered (keys)
open Json (GoesThrough SameOutsidePaths)

namespace Json

variable {key : String} {R R' : Json → Json → Prop} {v v' : Json}

/-- Members with the same key, which hold the same unless the key is a given one; there they hold
related values. -/
def SameMember (key : String) (R : Json → Json → Prop) (e e' : String × Json) : Prop :=
  e.1 = e'.1 ∧ if e.1 = key then R e.2 e'.2 else e.2 = e'.2

/-- Objects that differ in the value at one key, where they hold related values. -/
inductive DifferAt (key : String) (R : Json → Json → Prop) : Json → Json → Prop
  | object {ms ms' : List (String × Json)} (h : List.Forall₂ (SameMember key R) ms ms') :
      DifferAt key R (.object ms) (.object ms')

/-- Any two values: what one says, nothing in the other answers to. -/
def Unrelated (_ _ : Json) : Prop := True

/-- Documents that differ in the value of one path item. -/
abbrev DifferInItem (path : String) : Json → Json → Prop :=
  DifferAt "paths" (DifferAt path Unrelated)

/-- Documents that differ in the value of one key of a path item. -/
abbrev DifferInEntry (path key : String) : Json → Json → Prop :=
  DifferAt "paths" (DifferAt path (DifferAt key Unrelated))

theorem SameMember.keeps (key key' : String) (R : Json → Json → Prop) :
    Ordered.Keeps (SameMember key R) key' := fun e e' he => by rw [he.1]

theorem DifferAt.get?_eq (h : DifferAt key R v v') {key' : String} (hkey : key' ≠ key) :
    v.get? key' = v'.get? key' := by
  cases h with
  | object h =>
      refine Ordered.get?_eq_of_rel (SameMember.keeps key key' R) (fun u w huw => ?_) h
      have hvalue := huw.2
      rwa [if_neg hkey] at hvalue

theorem DifferAt.get? (h : DifferAt key R v v') : Option.Rel R (v.get? key) (v'.get? key) := by
  cases h with
  | @object ms ms' h =>
      have hrel := Ordered.get?_rel (SameMember.keeps key key R) h
      show Option.Rel R (Ordered.get? ms key) (Ordered.get? ms' key)
      generalize Ordered.get? ms key = value, Ordered.get? ms' key = value' at hrel ⊢
      cases hrel with
      | none => exact .none
      | some hrel =>
          have hvalue := hrel.2
          rw [if_pos rfl] at hvalue
          exact .some hvalue

theorem DifferAt.sameOutsidePaths (h : DifferAt "paths" R v v') : SameOutsidePaths v v' := by
  have hget : ∀ key ≠ "paths", v.get? key = v'.get? key := fun key hkey => h.get?_eq hkey
  cases h with
  | object h => exact .object hget

/-- The tables below a key hold the same but at the given key. -/
theorem DifferAt.tables {key' : String} (h : DifferAt key (DifferAt key' R) v v') :
    List.Forall₂ (SameMember key' R) (((v.get? key).bind members?).getD [])
      (((v'.get? key).bind members?).getD []) := by
  have hrel := h.get?
  generalize v.get? key = table, v'.get? key = table' at hrel ⊢
  cases hrel with
  | none => exact .nil
  | some hrel =>
      cases hrel with
      | object h => exact h

theorem DifferAt.mono (hR : ∀ v v', R v v' → R' v v') (h : DifferAt key R v v') :
    DifferAt key R' v v' := by
  cases h with
  | object h =>
      refine .object (h.imp fun e e' he => ⟨he.1, ?_⟩)
      have hvalue := he.2
      split
      · next hkey =>
          rw [if_pos hkey] at hvalue
          exact hR _ _ hvalue
      · next hkey => rwa [if_neg hkey] at hvalue

theorem DifferInEntry.differInItem {path : String} (h : DifferInEntry path key v v') :
    DifferInItem path v v' :=
  h.mono fun _ _ h => h.mono fun _ _ _ => trivial

/-- A reference through a plain key starts with that key. -/
theorem GoesThrough.isPrefix {reference : String} (h : GoesThrough key reference)
    (htilde : '~' ∉ key.toList) (hslash : '/' ∉ key.toList) :
    "#/".toList ++ key.toList <+: reference.toList := by
  obtain ⟨rest, hsegments⟩ := h
  obtain ⟨cs, hlist, hpieces⟩ := segments?_eq_some_iff.1 hsegments
  obtain ⟨p, ps, hcut, hp, -⟩ := List.map_eq_cons_iff.1 hpieces
  obtain rfl := eq_of_unescape hp htilde hslash
  have hjoined := Text.joined_pieces '/' cs
  rw [hcut] at hjoined
  rw [hlist, ← hjoined, List.prefix_append_right_inj]
  cases ps with
  | nil => exact List.prefix_append ..
  | cons q qs =>
      rw [List.intercalate_cons_cons, List.append_assoc]
      exact List.prefix_append ..

end Json

open Json (SameMember DifferAt DifferInItem DifferInEntry)

/-! ## Tables -/

theorem filter_entries_eq {α : Type} {key : String} {R : Json → Json → Prop}
    (keep : String → Bool) (hkeep : keep key = false) (read : Json → Option α)
    {ms ms' : List (String × Json)} (h : List.Forall₂ (SameMember key R) ms ms') :
    (Json.entries read ms).filter (fun e => keep e.1) =
      (Json.entries read ms').filter fun e => keep e.1 := by
  rw [Json.entries, Json.entries, List.filter_filterMap, List.filter_filterMap]
  refine Ordered.filterMap_eq_of_rel ?_ h
  rintro ⟨k, u⟩ ⟨_, u'⟩ ⟨rfl, hu⟩
  by_cases hk : k = key
  · subst hk
    have hdropped : ∀ a : Option α, (a.map (k, ·)).filter (fun e => keep e.1) = none := by
      intro a
      cases a with
      | none => rfl
      | some a => simp [Option.filter, hkeep]
    exact (hdropped _).trans (hdropped _).symm
  · rw [if_neg hk] at hu
    rw [show u = u' from hu]

/-- Some routes of a document are the routes of some of its paths. -/
theorem filter_routesOf (doc : Document) (keep : String → Bool) :
    (routesOf doc).filter (fun route => keep route.1) =
      Ordered.ofWrites ((doc.spec.paths.filter fun p => keep (normalizePath p.1)).map fun p =>
        (normalizePath p.1, endpointsOf doc p.2)) := by
  rw [routesOf, Ordered.filter_ofWrites, List.filter_map]
  rfl

/-! ## Path items -/

/-- The endpoints of other verbs than the one that a key names. -/
def Endpoints.without (key : String) (es : Endpoints) : Endpoints :=
  es.filter fun e => Verb.ofKey? key ≠ some e.1

theorem without_endpointsOf (key : String) (doc : Document) (item : PathItem) :
    Endpoints.without key (endpointsOf doc item) = Ordered.ofWrites (item.entries.filterMap
      fun entry => (endpointAt? doc item.parameters entry).filter
        fun e => Verb.ofKey? key ≠ some e.1) := by
  rw [Endpoints.without, endpointsOf,
    Ordered.filter_ofWrites fun verb => decide (Verb.ofKey? key ≠ some verb),
    List.filter_filterMap]

theorem ofKey?_of_endpointAt? {doc : Document} {shared : List Json} {entry : String × Json}
    {e : Verb × Endpoint} (h : endpointAt? doc shared entry = some e) :
    Verb.ofKey? entry.1 = some e.1 := by
  obtain ⟨verb, hverb, h⟩ := Option.bind_eq_some_iff.1 h
  obtain ⟨op, -, h⟩ := Option.bind_eq_some_iff.1 h
  cases h
  exact hverb

/-- Items that differ at one key have the same endpoints of other verbs. -/
theorem Json.DifferAt.without_endpointsOf {key : String} {R : Json → Json → Prop} {v v' : Json}
    (h : DifferAt key R v v') (hkey : key ≠ "parameters") (doc : Document) :
    Option.Rel (fun item item' => Endpoints.without key (endpointsOf doc item) =
      Endpoints.without key (endpointsOf doc item')) (PathItem.ofJson? v) (PathItem.ofJson? v') := by
  have hshared : v.get? "parameters" = v'.get? "parameters" := h.get?_eq hkey.symm
  cases h with
  | @object ms ms' h =>
      have hparameters : (Json.field? ms "parameters" Json.list?).getD [] =
          (Json.field? ms' "parameters" Json.list?).getD [] := by
        rw [Json.field?, Json.field?]
        exact congrArg (fun v => (Option.bind v Json.list?).getD []) hshared
      refine .some ?_
      rw [EndpointBindings.without_endpointsOf, EndpointBindings.without_endpointsOf]
      dsimp only
      rw [hparameters]
      refine congrArg Ordered.ofWrites (Ordered.filterMap_eq_of_rel ?_
        (List.rel_filter (fun e e' he => by dsimp only; rw [he.1]) h))
      rintro ⟨k, u⟩ ⟨_, u'⟩ ⟨rfl, hu⟩
      by_cases hk : k = key
      · subst hk
        have hdropped : ∀ shared u, (endpointAt? doc shared (k, u)).filter
            (fun e => decide (Verb.ofKey? k ≠ some e.1)) = none := by
          intro shared u
          cases he : endpointAt? doc shared (k, u) with
          | none => rfl
          | some e => simp [Option.filter, ofKey?_of_endpointAt? he]
        exact (hdropped _ _).trans (hdropped _ _).symm
      · rw [if_neg hk] at hu
        rw [show u = u' from hu]

/-! ## The theorem -/

section documents

variable {path : String} {v v' : Json} {doc doc' : Document}
  (hrefs : ∀ r ∈ v.references, ¬ GoesThrough "paths" r)
  (hdoc : Document.ofJson v = .ok doc) (hdoc' : Document.ofJson v' = .ok doc')

include hdoc hdoc' in
/-- The paths of documents that differ in one path item are read from tables that do. -/
theorem Json.DifferAt.exists_tables {R : Json → Json → Prop}
    (h : DifferAt "paths" (DifferAt path R) v v') : ∃ table table',
      doc.spec.paths = Json.entries PathItem.ofJson? table ∧
      doc'.spec.paths = Json.entries PathItem.ofJson? table' ∧
      List.Forall₂ (SameMember path R) table table' := by
  obtain ⟨r, hr, rfl⟩ := Document.ofJson_eq_ok_iff.1 hdoc
  obtain ⟨r', hr', rfl⟩ := Document.ofJson_eq_ok_iff.1 hdoc'
  have htables := h.tables
  cases h with
  | object _ =>
      cases hr
      cases hr'
      exact ⟨_, _, rfl, rfl, htables⟩

include hrefs hdoc hdoc'

/-- The routes of the other paths are the same. -/
theorem Json.DifferAt.filter_routes_eq {R : Json → Json → Prop}
    (h : DifferAt "paths" (DifferAt path R) v v') :
    doc'.api.routes.filter (fun route => route.1 ≠ normalizePath path) =
      doc.api.routes.filter fun route => route.1 ≠ normalizePath path := by
  obtain ⟨table, table', htable, htable', hrel⟩ := h.exists_tables hdoc hdoc'
  let keep : String → Bool := fun name => decide (name ≠ normalizePath path)
  have hpaths : doc.spec.paths.filter (fun p => keep (normalizePath p.1)) =
      doc'.spec.paths.filter fun p => keep (normalizePath p.1) := by
    rw [htable, htable']
    exact filter_entries_eq (fun name => keep (normalizePath name)) (by simp [keep])
      PathItem.ofJson? hrel
  calc (routesOf doc').filter (fun route => keep route.1)
      = Ordered.ofWrites ((doc.spec.paths.filter fun p => keep (normalizePath p.1)).map fun p =>
          (normalizePath p.1, endpointsOf doc' p.2)) := by rw [filter_routesOf, hpaths]
    _ = Ordered.ofWrites ((doc.spec.paths.filter fun p => keep (normalizePath p.1)).map fun p =>
          (normalizePath p.1, endpointsOf doc p.2)) := by
        refine congrArg Ordered.ofWrites (List.map_congr_left fun p hp => ?_)
        rw [h.sameOutsidePaths.endpointsOf_eq hrefs hdoc hdoc' (List.mem_filter.1 hp).1]
    _ = (routesOf doc).filter fun route => keep route.1 := (filter_routesOf doc keep).symm

/-- The endpoints of other verbs are the same below every path. -/
theorem Json.DifferAt.without_routes_eq {key : String} {R : Json → Json → Prop}
    (h : DifferAt "paths" (DifferAt path (DifferAt key R)) v v') (hkey : key ≠ "parameters") :
    Ordered.mapValues (Endpoints.without key) doc'.api.routes =
      Ordered.mapValues (Endpoints.without key) doc.api.routes := by
  obtain ⟨table, table', htable, htable', hrel⟩ := h.exists_tables hdoc hdoc'
  have hroutes : ∀ doc : Document, Ordered.mapValues (Endpoints.without key) doc.api.routes =
      Ordered.ofWrites (doc.spec.paths.map fun p =>
        (normalizePath p.1, Endpoints.without key (endpointsOf doc p.2))) := by
    intro doc
    show Ordered.mapValues _ (routesOf doc) = _
    rw [routesOf, Ordered.mapValues_ofWrites, Ordered.mapValues, List.map_map]
    rfl
  have hpaths : List.Forall₂ (fun p p' => p.1 = p'.1 ∧
      Endpoints.without key (endpointsOf doc' p.2) = Endpoints.without key (endpointsOf doc' p'.2))
        doc.spec.paths doc'.spec.paths := by
    rw [htable, htable']
    refine Json.entries_rel (R := fun item item' => Endpoints.without key (endpointsOf doc' item) =
      Endpoints.without key (endpointsOf doc' item')) ?_ hrel
    rintro ⟨k, u⟩ ⟨_, u'⟩ ⟨rfl, hu⟩
    refine ⟨rfl, ?_⟩
    dsimp only at hu ⊢
    split at hu
    · exact hu.without_endpointsOf hkey doc'
    · rw [hu]
      cases PathItem.ofJson? u' with
      | none => exact .none
      | some item => exact .some rfl
  rw [hroutes, hroutes]
  calc Ordered.ofWrites (doc'.spec.paths.map fun p =>
        (normalizePath p.1, Endpoints.without key (endpointsOf doc' p.2)))
      = Ordered.ofWrites (doc.spec.paths.map fun p =>
          (normalizePath p.1, Endpoints.without key (endpointsOf doc' p.2))) := by
        refine congrArg Ordered.ofWrites (Ordered.map_eq_of_rel (fun p p' hp => ?_) hpaths).symm
        rw [hp.1, hp.2]
    _ = Ordered.ofWrites (doc.spec.paths.map fun p =>
          (normalizePath p.1, Endpoints.without key (endpointsOf doc p.2))) := by
        refine congrArg Ordered.ofWrites (List.map_congr_left fun p hp => ?_)
        rw [h.sameOutsidePaths.endpointsOf_eq hrefs hdoc hdoc' hp]

end documents

/-- **Damage stays local.**  Take two documents of version 3 that differ in the value of one path
item, whatever it is in either of them, and let no reference of the first start with `#/paths`.
Both are accepted, with the same base address and the same component schemas, and the routes of all
other paths are the same and stand in the same order.  When they differ in the value of one key of
the item, not that of the shared parameters, both have the same paths, and below each of them the
same endpoints of all verbs but the one that the key names. -/
theorem damage_local {path : String} {v v' : Json} (h : DifferInItem path v v')
    (hversion : Version.detect v = .ok .openApi3)
    (hrefs : ∀ r ∈ v.references, ¬ "#/paths".toList <+: r.toList) :
    ∃ api api', Api.ofJson v = .ok api ∧ Api.ofJson v' = .ok api' ∧
      api'.baseUrl = api.baseUrl ∧ api'.schemas = api.schemas ∧
      api'.routes.filter (fun route => route.1 ≠ normalizePath path) =
        api.routes.filter (fun route => route.1 ≠ normalizePath path) ∧
      ∀ key, key ≠ "parameters" → DifferInEntry path key v v' →
        Ordered.mapValues (Endpoints.without key) api'.routes =
          Ordered.mapValues (Endpoints.without key) api.routes := by
  have hrefs : ∀ r ∈ v.references, ¬ GoesThrough "paths" r := by
    intro r hr hthrough
    exact hrefs r hr (hthrough.isPrefix (by decide) (by decide))
  have hversion' : Version.detect v' = .ok .openApi3 :=
    h.sameOutsidePaths.detect_eq.symm.trans hversion
  obtain ⟨doc, hdoc, hapi⟩ := exists_document hversion
  obtain ⟨doc', hdoc', hapi'⟩ := exists_document hversion'
  obtain ⟨hbase, hschemas⟩ := h.sameOutsidePaths.api_eq hrefs hdoc hdoc'
  exact ⟨doc.api, doc'.api, hapi, hapi', hbase, hschemas, h.filter_routes_eq hrefs hdoc hdoc',
    fun key hkey hentry => hentry.without_routes_eq hrefs hdoc hdoc' hkey⟩

/-! ### A shop with a broken operation -/

/-- A document with an order and a list of orders; what reads the order is given. -/
def shopTree (get : Json) : Json :=
  .object [("openapi", .string "3.0.0"), ("paths", .object [
      ("/orders/{id}", .object [("get", get), ("delete", .object [])]),
      ("/orders", .object [("get", .object [("responses", .object [("200", .object [("content",
        .object [("application/json", .object [("schema",
          .object [("$ref", .string "#/components/schemas/Order")])])])])])])])]),
    ("components", .object [("schemas", .object [("Order", .object [("type", .string "string")])])])]

/-- Null in the place of an operation takes that endpoint away, and no other. -/
theorem shop_damage :
    DifferInItem "/orders/{id}" (shopTree (.object [])) (shopTree .null) ∧
    Version.detect (shopTree (.object [])) = .ok .openApi3 ∧
    (∀ r ∈ (shopTree (.object [])).references, ¬ "#/paths".toList <+: r.toList) ∧
    DifferInEntry "/orders/{id}" "get" (shopTree (.object [])) (shopTree .null) ∧
    ∃ api api', Api.ofJson (shopTree (.object [])) = .ok api ∧
      Api.ofJson (shopTree .null) = .ok api' ∧ api'.schemas = api.schemas ∧
      api.routes.map (fun route => (route.1, keys route.2)) =
        [("/orders/[id]", [.get, .delete]), ("/orders", [.get])] ∧
      api'.routes.map (fun route => (route.1, keys route.2)) =
        [("/orders/[id]", [.delete]), ("/orders", [.get])] ∧
      api'.routes.filter (fun route => route.1 ≠ "/orders/[id]") =
        api.routes.filter (fun route => route.1 ≠ "/orders/[id]") ∧
      Ordered.mapValues (Endpoints.without "get") api'.routes =
        Ordered.mapValues (Endpoints.without "get") api.routes := by
  have hentry : DifferInEntry "/orders/{id}" "get" (shopTree (.object [])) (shopTree .null) := by
    have hsame : ∀ {key R} (e : String × Json), e.1 ≠ key → SameMember key R e e :=
      fun e he => ⟨rfl, by rw [if_neg he]⟩
    refine .object (.cons (hsame _ (by decide)) (.cons ⟨rfl, .object ?_⟩
      (.cons (hsame _ (by decide)) .nil)))
    refine .cons ⟨rfl, .object ?_⟩ (.cons (hsame _ (by decide)) .nil)
    exact .cons ⟨rfl, trivial⟩ (.cons (hsame _ (by decide)) .nil)
  have hversion : Version.detect (shopTree (.object [])) = .ok .openApi3 := rfl
  have hrefs : ∀ r ∈ (shopTree (.object [])).references, ¬ "#/paths".toList <+: r.toList := by
    decide
  obtain ⟨api, api', hapi, hapi', -, hschemas, hroutes, hverbs⟩ :=
    damage_local hentry.differInItem hversion hrefs
  refine ⟨hentry.differInItem, hversion, hrefs, hentry, api, api', hapi, hapi', hschemas, ?_, ?_,
    hroutes, hverbs "get" (by decide) hentry⟩
  · cases hapi
    rfl
  · cases hapi'
    rfl

end EndpointBindings
