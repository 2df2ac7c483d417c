import EndpointBindings.Proofs.Dialects.VerbOrder

/-!
# Where the schemas of a converted path come from

The conversion moves schemas: out of body parameters and responses into content, and out of a
parameter's own fields into a schema of its own.  It builds new objects around them, and these have
no keyword that holds schemas but what they took over (`Drawn`).  So every schema that is read from
a converted path item lists its properties in the order of a tree that stands in the item as it was,
or of a part of that tree's members (`Schema.ListedIn`).
-/

namespace EndpointBindings

open Ordered (keys get?)
open Swagger (modernize modernizeAt modernizeMembers renameNullable convertParameter convertResponse
  convertOperation convertEntry jsonContent requestBodyOf splitParameters)
open Schema (ofJson slotKeys)

/-- A tree, or an object with some of its members. -/
inductive Json.Excerpt : Json → Json → Prop
  | whole (v : Json) : Excerpt v v
  | members (ms : List (String × Json)) (keep : String × Json → Bool) :
      Excerpt (.object (ms.filter keep)) (.object ms)

/-- The schema lists properties, at every depth, in the order of a tree that stands in another. -/
def Schema.ListedIn (s : Schema) (v : Json) : Prop :=
  ∃ w u : Json, w.StandsIn v ∧ u.Excerpt w ∧ s.bare = (ofJson u).bare

/-! ## Trees after the rewrite -/

theorem exists_of_mem_renameNullable {ms : List (String × Json)} {key : String} {v : Json}
    (h : (key, v) ∈ renameNullable ms) :
    ∃ key', (key', v) ∈ ms ∧ (key ≠ "nullable" → key' = key) := by
  rw [renameNullable] at h
  split at h
  · next mark hmark =>
      rcases Ordered.mem_of_mem_put h with h | h
      · exact ⟨key, Ordered.mem_of_mem_swapErase h, fun _ => rfl⟩
      · cases h
        exact ⟨_, Ordered.mem_of_get? hmark, fun hne => absurd rfl hne⟩
  · exact ⟨key, h, fun _ => rfl⟩

theorem exists_of_mem_modernizeMembers {ms : List (String × Json)} {key : String} {v : Json}
    (h : (key, v) ∈ modernizeMembers ms) : ∃ u, (key, u) ∈ ms ∧ v = modernizeAt key u := by
  rw [Swagger.modernizeMembers_eq] at h
  obtain ⟨⟨_, u⟩, hu, he⟩ := List.mem_map.1 h
  cases he
  exact ⟨u, hu, rfl⟩

/-- What stands in a rewritten tree is read as the rewrite of what stands in the tree. -/
theorem exists_of_standsIn_modernizeAt {key : String} {v w : Json}
    (h : w.StandsIn (modernizeAt key v)) :
    ∃ u, u.StandsIn v ∧ ofJson w = ofJson (modernize u) := by
  cases v with
  | object ms =>
      have h : w.StandsIn (.object (renameNullable (modernizeMembers ms))) := h
      cases h with
      | whole => exact ⟨_, .whole, rfl⟩
      | member hy hw =>
          obtain ⟨key', hy, -⟩ := exists_of_mem_renameNullable hy
          obtain ⟨x, hx, rfl⟩ := exists_of_mem_modernizeMembers hy
          have hdepth := Json.depth_lt_of_mem_members hx
          obtain ⟨u, hu, he⟩ := exists_of_standsIn_modernizeAt hw
          exact ⟨u, .member hx hu, he⟩
  | list xs =>
      have h : w.StandsIn (.list (Swagger.modernizeItems xs)) := h
      rw [Swagger.modernizeItems_eq] at h
      cases h with
      | whole =>
          rw [← Swagger.modernizeItems_eq]
          exact ⟨.list xs, .whole, rfl⟩
      | item hy hw =>
          obtain ⟨x, hx, rfl⟩ := List.mem_map.1 hy
          have hdepth := Json.depth_lt_of_mem hx
          rw [← Swagger.modernizeAt_of_ne (by decide : "" ≠ "$ref")] at hw
          obtain ⟨u, hu, he⟩ := exists_of_standsIn_modernizeAt hw
          exact ⟨u, .item hx hu, he⟩
  | string target =>
      have hstring : ∃ target', modernizeAt key (.string target) = .string target' := by
        rw [modernizeAt]
        split <;> exact ⟨_, rfl⟩
      obtain ⟨target', htarget⟩ := hstring
      rw [htarget] at h
      cases h
      exact ⟨.string target, .whole, rfl⟩
  | null | bool _ | number _ =>
      cases h
      exact ⟨_, .whole, rfl⟩
termination_by v.depth

/-! ## What the conversion builds -/

/-- A tree in the conversion of a path item with the given members: one that stands in the item, or
a new object whose keywords for schemas are those of an object in the item, or of a part of it. -/
inductive Drawn (item : List (String × Json)) : Json → Prop
  | part {v : Json} (h : v.StandsIn (.object item)) : Drawn item v
  | flag (b : Bool) : Drawn item (.bool b)
  | list {xs : List Json} (h : ∀ x ∈ xs, Drawn item x) : Drawn item (.list xs)
  | built {ms ns : List (String × Json)} (keep : String × Json → Bool)
      (hns : (Json.object ns).StandsIn (.object item)) (hnodup : (keys ms).Nodup)
      (hslots : ∀ key ∈ slotKeys, get? ms key = get? (ns.filter keep) key)
      (hvalues : ∀ key v, (key, v) ∈ ms → Drawn item v) : Drawn item (.object ms)

namespace Drawn

variable {item : List (String × Json)} {v w : Json}

theorem of_standsIn (h : Drawn item v) (hw : w.StandsIn v) : Drawn item w := by
  induction h with
  | part h => exact .part (hw.trans h)
  | flag b =>
      cases hw
      exact .flag b
  | list h ih =>
      cases hw with
      | whole => exact .list h
      | item hx hw => exact ih _ hx hw
  | built keep hns hnodup hslots hvalues ih =>
      cases hw with
      | whole => exact .built keep hns hnodup hslots hvalues
      | member hm hw => exact ih _ _ hm hw

theorem wellFormed (hitem : (Json.object item).WellFormed) (h : Drawn item v) : v.WellFormed := by
  induction h with
  | part h => exact hitem.of_standsIn h
  | flag b => exact .bool b
  | list _ ih => exact .list ih
  | built _ _ hnodup _ _ ih => exact .object hnodup ih

theorem plainProperties (hitem : (Json.object item).WellFormed)
    (hplain : PlainProperties (.object item)) (h : Drawn item v) : PlainProperties v := by
  intro w hw ps hps
  cases h.of_standsIn hw with
  | part h => exact hplain w h ps hps
  | flag b => cases hps
  | list _ => cases hps
  | @built ms ns keep hns _ hslots _ =>
      have hkept : get? (ns.filter keep) "properties" = some (.object ps) :=
        (hslots _ List.mem_cons_self).symm.trans hps
      have hmem := (List.mem_filter.1 (Ordered.mem_of_get? hkept)).1
      obtain ⟨hnodup, -⟩ := Json.wellFormed_object_iff.1 (hitem.of_standsIn hns)
      exact hplain _ hns ps (Ordered.get?_of_mem hnodup hmem)

/-- The schemas in such a tree after the rewrite list properties as the item does. -/
theorem listedIn (hitem : (Json.object item).WellFormed) (hplain : PlainProperties (.object item))
    (h : Drawn item v) {key : String} (hw : w.StandsIn (modernizeAt key v)) :
    (ofJson w).ListedIn (.object item) := by
  obtain ⟨u, hu, he⟩ := exists_of_standsIn_modernizeAt hw
  have hdrawn := h.of_standsIn hu
  have hbare : (ofJson w).bare = (ofJson u).bare := by
    rw [he, bare_modernize (hdrawn.wellFormed hitem) (hdrawn.plainProperties hitem hplain)]
  cases hdrawn with
  | part h => exact ⟨u, u, h, .whole u, hbare⟩
  | flag _ | list _ =>
      refine ⟨.object item, _, .whole, .members item fun _ => false, ?_⟩
      rw [hbare, List.filter_false]
      rfl
  | built keep hns _ hslots _ =>
      exact ⟨_, _, hns, .members _ keep, hbare.trans (Schema.bare_congr hslots)⟩

/-- An object without keywords for schemas around such trees. -/
theorem wrapper {ms : List (String × Json)} (hnodup : (keys ms).Nodup)
    (hslots : ∀ key ∈ slotKeys, key ∉ keys ms) (hvalues : ∀ key v, (key, v) ∈ ms → Drawn item v) :
    Drawn item (.object ms) := by
  refine .built (fun _ => false) .whole hnodup (fun key hkey => ?_) hvalues
  rw [Ordered.get?_eq_none_iff.2 (hslots key hkey), List.filter_false]
  rfl

theorem empty : Drawn item (.object []) :=
  wrapper List.nodup_nil (fun _ _ => List.not_mem_nil) fun _ _ h => absurd h List.not_mem_nil

theorem of_get? (h : v.StandsIn (.object item)) {key : String} (hw : v.get? key = some w) :
    Drawn item w := by
  obtain ⟨ms, hms, hw⟩ := Option.bind_eq_some_iff.1 hw
  obtain rfl := Json.eq_of_members? hms
  exact .part (.trans (.member (Ordered.mem_of_get? hw) .whole) h)

theorem getD (h : v.StandsIn (.object item)) (hw : Drawn item w) (key : String) :
    Drawn item ((v.get? key).getD w) := by
  cases hv : v.get? key with
  | none => exact hw
  | some u => exact of_get? h hv

section conversion

variable (hitem : (Json.object item).WellFormed)

include hitem

/-- Every object among such trees has the keywords for schemas of a part of an object in the
item. -/
theorem exists_of_object {ms : List (String × Json)} (h : Drawn item (.object ms)) :
    ∃ ns keep, (Json.object ns).StandsIn (.object item) ∧ (keys ms).Nodup ∧
      (∀ key ∈ slotKeys, get? ms key = get? (ns.filter keep) key) ∧
      ∀ key v, (key, v) ∈ ms → Drawn item v := by
  have hvalues : ∀ key v, (key, v) ∈ ms → Drawn item v :=
    fun key v hv => h.of_standsIn (.member hv .whole)
  cases h with
  | part h =>
      obtain ⟨hnodup, -⟩ := Json.wellFormed_object_iff.1 (hitem.of_standsIn h)
      exact ⟨ms, fun _ => true, h, hnodup, fun key _ => by rw [List.filter_true], hvalues⟩
  | built keep hns hnodup hslots _ => exact ⟨_, keep, hns, hnodup, hslots, hvalues⟩

/-- Keywords that hold no schemas may be written. -/
theorem put {ms : List (String × Json)} (h : Drawn item (.object ms)) {key : String}
    (hkey : key ∉ slotKeys) (hv : Drawn item v) : Drawn item (.object (Ordered.put ms key v)) := by
  obtain ⟨ns, keep, hns, hnodup, hslots, hvalues⟩ := h.exists_of_object hitem
  refine .built keep hns (Ordered.nodup_keys_put hnodup _ _) ?_ ?_
  · intro slot hslot
    rw [Ordered.get?_put, if_neg (ne_of_mem_of_not_mem hslot hkey).symm, hslots slot hslot]
  · intro key' u hu
    rcases Ordered.mem_of_mem_put hu with hu | hu
    · exact hvalues key' u hu
    · cases hu
      exact hv

theorem cons {ms : List (String × Json)} (h : Drawn item (.object ms)) {key : String}
    (hfresh : key ∉ keys ms) (hkey : key ∉ slotKeys) (hv : Drawn item v) :
    Drawn item (.object ((key, v) :: ms)) := by
  obtain ⟨ns, keep, hns, hnodup, hslots, hvalues⟩ := h.exists_of_object hitem
  refine .built keep hns (List.nodup_cons.2 ⟨hfresh, hnodup⟩) ?_ ?_
  · intro slot hslot
    rw [Ordered.get?_cons, if_neg (ne_of_mem_of_not_mem hslot hkey).symm, hslots slot hslot]
  · intro key' u hu
    rcases List.mem_cons.1 hu with hu | hu
    · cases hu
      exact hv
    · exact hvalues key' u hu

/-- They may be taken out. -/
theorem swapErase {ms : List (String × Json)} (h : Drawn item (.object ms)) {key : String}
    (hkey : key ∉ slotKeys) : Drawn item (.object (Ordered.swapErase ms key)) := by
  obtain ⟨ns, keep, hns, hnodup, hslots, hvalues⟩ := h.exists_of_object hitem
  refine .built keep hns (Ordered.nodup_keys_swapErase hnodup key) ?_ ?_
  · intro slot hslot
    have hne : slot ≠ key := ne_of_mem_of_not_mem hslot hkey
    rw [Ordered.get?_swapErase hnodup, if_neg hne.symm, hslots slot hslot]
  · intro key' u hu
    exact hvalues key' u (Ordered.mem_of_mem_swapErase hu)

/-- Some members of an object in the item. -/
theorem filter {ms : List (String × Json)} (h : (Json.object ms).StandsIn (.object item))
    (keep : String × Json → Bool) : Drawn item (.object (ms.filter keep)) := by
  obtain ⟨hnodup, -⟩ := Json.wellFormed_object_iff.1 (hitem.of_standsIn h)
  refine .built keep h (hnodup.sublist (List.filter_sublist.map _)) (fun _ _ => rfl) ?_
  intro key u hu
  exact .part (.trans (.member (List.mem_filter.1 hu).1 .whole) h)

theorem jsonContent (h : Drawn item v) : Drawn item (Swagger.jsonContent v) := by
  have hmedia : Drawn item (.object [("schema", v)]) :=
    empty.cons hitem List.not_mem_nil (by decide) h
  exact empty.cons hitem List.not_mem_nil (by decide) hmedia

theorem requestBodyOf (h : v.StandsIn (.object item)) : Drawn item (Swagger.requestBodyOf v) := by
  have hcontent : Drawn item (Swagger.jsonContent ((v.get? "schema").getD (.object []))) :=
    (getD h empty "schema").jsonContent hitem
  have hrequired : Drawn item ((v.get? "required").getD (.bool false)) :=
    getD h (.flag false) "required"
  have hrest : Drawn item (.object [("content",
      Swagger.jsonContent ((v.get? "schema").getD (.object []))),
      ("required", (v.get? "required").getD (.bool false))]) :=
    (empty.cons hitem List.not_mem_nil (by decide) hrequired).cons hitem (by simp [keys])
      (by decide) hcontent
  rw [Swagger.requestBodyOf]
  cases hdescription : v.get? "description" with
  | none => exact hrest
  | some text => exact hrest.cons hitem (by simp [keys]) (by decide) (of_get? h hdescription)

theorem convertParameter (h : v.StandsIn (.object item)) :
    Drawn item (Swagger.convertParameter v) := by
  cases v with
  | object ms =>
      rcases Swagger.convertParameter_object ms with ⟨keep, he⟩ | ⟨keep, fields, he⟩
      · rw [he]
        exact filter hitem h keep
      · rw [he]
        exact (filter hitem h keep).put hitem (by decide) (filter hitem h fields)
  | null | bool _ | number _ | string _ | list _ => exact .part h

theorem convertResponse (h : v.StandsIn (.object item)) :
    Drawn item (Swagger.convertResponse v) := by
  cases v with
  | object ms =>
      rw [Swagger.convertResponse]
      split
      · exact .part h
      · dsimp only
        refine swapErase hitem ?_ (by decide)
        split
        · next schema hschema =>
            have hcontent : Drawn item schema :=
              .part (.trans (.member (Ordered.mem_of_get? hschema) .whole) h)
            exact ((Drawn.part h).swapErase hitem (by decide)).put hitem (by decide)
              (hcontent.jsonContent hitem)
        · exact .part h
  | null | bool _ | number _ | string _ | list _ => exact .part h

theorem splitParameters (h : v.StandsIn (.object item)) :
    (∀ q ∈ (Swagger.splitParameters v).1, Drawn item q) ∧
      ∀ body, (Swagger.splitParameters v).2 = some body → Drawn item body := by
  have hitems : ∀ p ∈ v.list?.getD [], p.StandsIn (.object item) := fun p hp => by
    cases v with
    | list xs => exact .trans (.item hp .whole) h
    | null | bool _ | number _ | string _ | object _ => exact absurd hp List.not_mem_nil
  exact forall_splitItems (fun p hp => convertParameter hitem (hitems p hp))
    fun p hp => requestBodyOf hitem (hitems p hp)

end conversion

end Drawn

/-! ## Converted operations -/

/-- Every schema that is read from the tree's rewrite as an operation comes from the item. -/
inductive DrawnOperation (item : List (String × Json)) : Json → Prop
  | whole {v : Json} (h : Drawn item v) : DrawnOperation item v
  | fields {ms : List (String × Json)} (hnodup : (keys ms).Nodup)
      (hparameters : ∀ v, get? ms "parameters" = some v → Drawn item v)
      (hbody : ∀ v, get? ms "requestBody" = some v → Drawn item v)
      (hresponses : ∀ rs, get? ms "responses" = some (.object rs) →
        ∀ status v, (status, v) ∈ rs → Drawn item v) : DrawnOperation item (.object ms)

namespace DrawnOperation

variable {item : List (String × Json)} {v : Json}

theorem withBody (hitem : (Json.object item).WellFormed) (h : DrawnOperation item v)
    {body : Option Json} (hbody : ∀ b, body = some b → Drawn item b) :
    DrawnOperation item (Swagger.withBody body v) := by
  cases v with
  | object ms =>
      rcases Swagger.withBody_object body ms with ⟨he, -⟩ | ⟨b, hb, -, he⟩
      · rw [he]
        exact h
      · rw [he]
        cases h with
        | whole h => exact .whole (h.put hitem (by decide) (hbody b hb))
        | fields hnodup hparameters _ hresponses =>
            refine .fields (Ordered.nodup_keys_put hnodup _ _) ?_ ?_ ?_
            · intro u hu
              rw [Ordered.get?_put, if_neg (by decide)] at hu
              exact hparameters u hu
            · intro u hu
              rw [Ordered.get?_put, if_pos rfl] at hu
              cases hu
              exact hbody b hb
            · intro rs hrs
              rw [Ordered.get?_put, if_neg (by decide)] at hrs
              exact hresponses rs hrs
  | null | bool _ | number _ | string _ | list _ => cases body <;> exact h

theorem convertOperation (hitem : (Json.object item).WellFormed) (h : v.StandsIn (.object item)) :
    DrawnOperation item (Swagger.convertOperation v) := by
  cases v with
  | object ms =>
      obtain ⟨hnodup, -⟩ := Json.wellFormed_object_iff.1 (hitem.of_standsIn h)
      have hmember : ∀ {key u}, (key, u) ∈ ms → u.StandsIn (.object item) := fun hu =>
        .trans (.member hu .whole) h
      have hparameters : Swagger.Settled "parameters" := by decide
      have hresponses : Swagger.Settled "responses" := by decide
      rw [Swagger.convertOperation_object]
      refine .fields (Ordered.nodup_keys_ofWrites _) ?_ ?_ ?_
      · intro u hu
        rw [Swagger.get?_convertedMembers hnodup hparameters] at hu
        obtain ⟨ps, hps, rfl⟩ := Option.map_eq_some_iff.1 hu
        exact .list (Drawn.splitParameters hitem (hmember (Ordered.mem_of_get? hps))).1
      · intro u hu
        obtain ⟨e, he, hu⟩ :=
          List.mem_flatMap.1 (Ordered.mem_of_mem_ofWrites (Ordered.mem_of_get? hu))
        rcases Swagger.mem_convertedMember_requestBody hu with rfl | ⟨-, hbody⟩
        · exact .part (hmember he)
        · exact (Drawn.splitParameters hitem (hmember he)).2 u hbody
      · intro rs hrs status u hu
        rw [Swagger.get?_convertedMembers hnodup hresponses] at hrs
        obtain ⟨w, hw, he⟩ := Option.map_eq_some_iff.1 hrs
        cases w with
        | object ns =>
            cases he
            obtain ⟨⟨_, x⟩, hx, he⟩ := List.mem_map.1 hu
            cases he
            exact Drawn.convertResponse hitem
              (.trans (.member hx .whole) (hmember (Ordered.mem_of_get? hw)))
        | null | bool _ | number _ | string _ | list _ => cases he
  | null | bool _ | number _ | string _ | list _ => exact .whole (.part h)

theorem convertEntry (hitem : (Json.object item).WellFormed) {body : Option Json}
    (hbody : ∀ b, body = some b → Drawn item b) {key : String} (h : (key, v) ∈ item) :
    DrawnOperation item (Swagger.convertEntry body (key, v)).2 := by
  have hv : v.StandsIn (.object item) := .member h .whole
  rw [Swagger.convertEntry]
  split
  · exact (convertOperation hitem hv).withBody hitem hbody
  · exact .whole (.part hv)

/-- **What is read from a converted operation lists properties as the item does.** -/
theorem listedIn (hitem : (Json.object item).WellFormed) (hplain : PlainProperties (.object item))
    (h : DrawnOperation item v) {key : String} {op : Operation}
    (hop : Operation.ofJson? (modernizeAt key v) = some op) :
    (∀ s, (contentSchema? op.requestBody = some s ∨
      ∃ status, contentSchema? (get? op.responses status) = some s) → s.ListedIn (.object item)) ∧
    ∀ p ∈ op.parameters, ∀ w, w.StandsIn p → (ofJson w).ListedIn (.object item) := by
  cases h with
  | whole h =>
      constructor
      · intro s hs
        obtain ⟨w, hw, rfl⟩ := Operation.standsIn_of_contentSchema? hop hs
        exact h.listedIn hitem hplain hw
      · intro p hp w hw
        exact h.listedIn hitem hplain (hw.trans (Operation.standsIn_of_mem_parameters hop hp))
  | @fields ms hnodup hparameters hbody hresponses =>
      have hrecord : ∀ {r}, Json.record? Operation.fields (modernizeAt key (.object ms)) = some r →
          r = renameNullable (modernizeMembers ms) := fun hr => (Option.some.inj hr).symm
      constructor
      · rintro s (hs | ⟨status, hs⟩)
        · obtain ⟨r, y, w, hr, hy, hw, rfl⟩ := Operation.exists_of_body hop hs
          rw [hrecord hr, get?_rewritten hnodup (by decide)] at hy
          obtain ⟨u, hu, rfl⟩ := Option.map_eq_some_iff.1 hy
          rw [← Swagger.modernizeAt_of_ne (by decide : "" ≠ "$ref")] at hw
          exact (hbody u hu).listedIn hitem hplain hw
        · obtain ⟨r, rs, y, w, hr, hrs, hy, hw, rfl⟩ := Operation.exists_of_response hop hs
          rw [hrecord hr, get?_rewritten hnodup (by decide)] at hrs
          obtain ⟨u, hu, he⟩ := Option.map_eq_some_iff.1 hrs
          cases u with
          | object us =>
              cases he
              obtain ⟨status', hy, -⟩ := exists_of_mem_renameNullable hy
              obtain ⟨x, hx, rfl⟩ := exists_of_mem_modernizeMembers hy
              exact (hresponses us hu status' x hx).listedIn hitem hplain hw
          | null | bool _ | number _ | string _ | list _ => cases he
      · intro p hp w hw
        obtain ⟨r, ps, hr, hps, hp⟩ := Operation.exists_of_mem_parameters hop hp
        rw [hrecord hr, get?_rewritten hnodup (by decide)] at hps
        obtain ⟨u, hu, he⟩ := Option.map_eq_some_iff.1 hps
        have hin : w.StandsIn (modernizeAt "" u) := by
          rw [Swagger.modernizeAt_of_ne (by decide), he]
          exact .item hp hw
        exact (hparameters u hu).listedIn hitem hplain hin

end DrawnOperation

/-- The body that the operations of a path share comes from the item. -/
theorem drawn_sharedBody {item : List (String × Json)} (hitem : (Json.object item).WellFormed) :
    ∀ b, Swagger.sharedBody item = some b → Drawn item b := by
  intro b hb
  obtain ⟨parameters, hparameters, hb⟩ := Option.bind_eq_some_iff.1 hb
  have hin : parameters.StandsIn (.object item) :=
    .member (Ordered.mem_of_get? hparameters) .whole
  exact (Drawn.splitParameters hitem hin).2 b hb

/-- The parameters that the operations of a path share list properties as the item does. -/
theorem listedIn_of_shared {item : List (String × Json)} (hitem : (Json.object item).WellFormed)
    (hplain : PlainProperties (.object item)) {p w : Json}
    (hp : p ∈ (sharedParameters item).map modernize) (hw : w.StandsIn p) :
    (ofJson w).ListedIn (.object item) := by
  obtain ⟨q, hq, rfl⟩ := List.mem_map.1 hp
  rw [sharedParameters] at hq
  split at hq
  · next parameters hparameters =>
      have hin : parameters.StandsIn (.object item) :=
        .member (Ordered.mem_of_get? hparameters) .whole
      have hdrawn := (Drawn.splitParameters hitem hin).1 q hq
      rw [← Swagger.modernizeAt_of_ne (by decide : "" ≠ "$ref")] at hw
      exact hdrawn.listedIn hitem hplain hw
  · exact absurd hq List.not_mem_nil

end EndpointBindings
