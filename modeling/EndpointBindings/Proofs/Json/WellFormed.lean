import EndpointBindings.Document.Format
import EndpointBindings.Proofs.Json.Parts

/-!
# Trees with each key once

An object is a list of pairs, and nothing in the type keeps a key from standing there twice.  The
trees that documents are read into hold each key once, at every depth (`readDocument_wellFormed`):
an object is only ever made by writing its members into a table.  That invariant is `WellFormed`; it
is what a statement about objects as tables may rely on.
-/

namespace EndpointBindings

namespace Json

/-- Every object of the tree has each key once. -/
inductive WellFormed : Json → Prop
  | null : WellFormed .null
  | bool (b : Bool) : WellFormed (.bool b)
  | number (n : Number) : WellFormed (.number n)
  | string (s : String) : WellFormed (.string s)
  | list {xs : List Json} (items : ∀ x ∈ xs, WellFormed x) : WellFormed (.list xs)
  | object {ms : List (String × Json)} (keys : (Ordered.keys ms).Nodup)
      (values : ∀ key v, (key, v) ∈ ms → WellFormed v) : WellFormed (.object ms)

@[simp] theorem wellFormed_list_iff {xs : List Json} :
    (list xs).WellFormed ↔ ∀ x ∈ xs, x.WellFormed :=
  ⟨fun | .list items => items, .list⟩

@[simp] theorem wellFormed_object_iff {ms : List (String × Json)} :
    (object ms).WellFormed ↔ (Ordered.keys ms).Nodup ∧ ∀ key v, (key, v) ∈ ms → v.WellFormed :=
  ⟨fun | .object keys values => ⟨keys, values⟩, fun h => .object h.1 h.2⟩

/-! ## Parts -/

theorem WellFormed.of_child? {v w : Json} {segment : String} (hv : v.WellFormed)
    (h : v.child? segment = some w) : w.WellFormed := by
  cases hv with
  | object _ hvalues => exact hvalues _ _ (Ordered.mem_of_get? h)
  | list hitems =>
      obtain ⟨n, -, hn⟩ := Option.bind_eq_some_iff.1 h
      exact hitems _ (List.mem_of_getElem? hn)
  | null | bool _ | number _ | string _ => cases h

theorem WellFormed.of_walk? {v w : Json} {segments : List String} (hv : v.WellFormed)
    (h : v.walk? segments = some w) : w.WellFormed := by
  induction segments generalizing v with
  | nil => cases h; exact hv
  | cons s ss ih =>
      obtain ⟨u, hu, hw⟩ := Option.bind_eq_some_iff.1 h
      exact ih (hv.of_child? hu) hw

theorem WellFormed.of_follow? {root w : Json} {reference : String} (hroot : root.WellFormed)
    (h : root.follow? reference = some w) : w.WellFormed := by
  obtain ⟨segments, -, hw⟩ := Option.bind_eq_some_iff.1 h
  exact hroot.of_walk? hw

theorem WellFormed.of_standsIn {v w : Json} (hv : v.WellFormed) (h : w.StandsIn v) :
    w.WellFormed := by
  induction h with
  | whole => exact hv
  | item hx _ ih => exact ih (wellFormed_list_iff.1 hv _ hx)
  | member hm _ ih => exact ih ((wellFormed_object_iff.1 hv).2 _ _ hm)

/-- Writing into a table makes an object with each key once. -/
theorem WellFormed.ofWrites {ms : List (String × Json)}
    (h : ∀ key v, (key, v) ∈ ms → v.WellFormed) :
    (Json.object (Ordered.ofWrites ms)).WellFormed := by
  refine .object (Ordered.nodup_keys_ofWrites ms) fun key v hm => ?_
  exact h key v (Ordered.mem_of_mem_ofWrites hm)

/-! ## What the JSON reader gives -/

theorem wellFormed_of_readWord {word cs rest : List Char} {value v : Json}
    (hvalue : value.WellFormed) (h : readWord word value cs = some (v, rest)) : v.WellFormed := by
  rw [readWord] at h
  split at h
  · cases h
    exact hvalue
  · cases h

/-- What the three readers give with so much fuel is well formed. -/
structure ReadsWellFormed (fuel : Nat) : Prop where
  value {depth : Nat} {cs rest : List Char} {v : Json}
    (h : readValue fuel depth cs = some (v, rest)) : v.WellFormed
  items {depth : Nat} {cs rest : List Char} {xs : List Json}
    (h : readItems fuel depth cs = some (xs, rest)) : ∀ x ∈ xs, x.WellFormed
  members {depth : Nat} {cs rest : List Char} {ms : List (String × Json)}
    (h : readMembers fuel depth cs = some (ms, rest)) : ∀ key v, (key, v) ∈ ms → v.WellFormed

section step

variable {fuel depth : Nat} {cs rest : List Char}

theorem ReadsWellFormed.value_step (ih : ReadsWellFormed fuel) {v : Json}
    (h : readValue (fuel + 1) depth cs = some (v, rest)) : v.WellFormed := by
  rw [readValue] at h
  split at h
  · split at h
    · cases h
    · cases h
      exact .list fun x hx => absurd hx List.not_mem_nil
    · obtain ⟨⟨xs, rest'⟩, hxs, he⟩ := Option.map_eq_some_iff.1 h
      cases he
      exact .list (ih.items hxs)
  · split at h
    · cases h
    · cases h
      exact .object List.nodup_nil fun key x hx => absurd hx List.not_mem_nil
    · obtain ⟨⟨ms, rest'⟩, hms, he⟩ := Option.map_eq_some_iff.1 h
      cases he
      exact .ofWrites (ih.members hms)
  · obtain ⟨⟨s, rest'⟩, -, he⟩ := Option.map_eq_some_iff.1 h
    cases he
    exact .string s
  · exact wellFormed_of_readWord .null h
  · exact wellFormed_of_readWord (.bool true) h
  · exact wellFormed_of_readWord (.bool false) h
  · obtain ⟨⟨literal, rest'⟩, -, h⟩ := Option.bind_eq_some_iff.1 h
    obtain ⟨n, -, he⟩ := Option.bind_eq_some_iff.1 h
    cases he
    exact .number n

theorem ReadsWellFormed.items_step (ih : ReadsWellFormed fuel) {xs : List Json}
    (h : readItems (fuel + 1) depth cs = some (xs, rest)) : ∀ x ∈ xs, x.WellFormed := by
  rw [readItems] at h
  obtain ⟨⟨x, rest'⟩, hx, h⟩ := Option.bind_eq_some_iff.1 h
  dsimp only at h
  split at h
  · cases h
    exact List.forall_mem_singleton.2 (ih.value hx)
  · obtain ⟨⟨ys, rest''⟩, hys, he⟩ := Option.bind_eq_some_iff.1 h
    cases he
    exact List.forall_mem_cons.2 ⟨ih.value hx, ih.items hys⟩
  · cases h

theorem ReadsWellFormed.members_step (ih : ReadsWellFormed fuel) {ms : List (String × Json)}
    (h : readMembers (fuel + 1) depth cs = some (ms, rest)) :
    ∀ key v, (key, v) ∈ ms → v.WellFormed := by
  rw [readMembers] at h
  split at h
  · obtain ⟨⟨key, rest'⟩, -, h⟩ := Option.bind_eq_some_iff.1 h
    dsimp only at h
    split at h
    · obtain ⟨⟨v, rest'⟩, hv, h⟩ := Option.bind_eq_some_iff.1 h
      dsimp only at h
      split at h
      · cases h
        intro key' w hw
        cases List.mem_singleton.1 hw
        exact ih.value hv
      · obtain ⟨⟨ns, rest''⟩, hns, he⟩ := Option.bind_eq_some_iff.1 h
        cases he
        intro key' w hw
        rcases List.mem_cons.1 hw with hw | hw
        · cases hw
          exact ih.value hv
        · exact ih.members hns key' w hw
      · cases h
    · cases h
  · cases h

end step

/-- Without fuel nothing is read, and one level more calls the readers below it only. -/
theorem readsWellFormed (fuel : Nat) : ReadsWellFormed fuel := by
  induction fuel with
  | zero =>
      exact {
        value := fun h => by simp [readValue] at h
        items := fun h => by simp [readItems] at h
        members := fun h => by simp [readMembers] at h }
  | succ fuel ih => exact ⟨ih.value_step, ih.items_step, ih.members_step⟩

theorem read?_wellFormed {text : String} {v : Json} (h : read? text = some v) : v.WellFormed := by
  obtain ⟨⟨w, rest⟩, hw, h⟩ := Option.bind_eq_some_iff.1 h
  dsimp only at h
  split at h
  · cases h
    exact (readsWellFormed _).value hw
  · cases h

end Json

/-! ## What the YAML reader gives -/

namespace Yaml

theorem Number.toJson_wellFormed (n : Number) : n.toJson.WellFormed := by
  cases n with
  | int i => exact .number _
  | finite x => exact .number _
  | infinite _ => exact .null
  | nan => exact .null

mutual

theorem Value.toJson_wellFormed : ∀ {value : Value} {v : Json}, value.toJson = .ok v → v.WellFormed
  | .null, _, h => by cases h; exact .null
  | .bool b, _, h => by cases h; exact .bool b
  | .number n, _, h => by cases h; exact n.toJson_wellFormed
  | .string s, _, h => by cases h; exact .string s
  | .sequence xs, v, h => by
      rw [Value.toJson] at h
      cases hys : itemsToJson xs with
      | error e => rw [hys] at h; cases h
      | ok ys =>
          rw [hys] at h
          cases h
          exact .list (itemsToJson_wellFormed hys)
  | .mapping es, v, h => by
      rw [Value.toJson] at h
      cases hms : entriesToJson es with
      | error e => rw [hms] at h; cases h
      | ok ms =>
          rw [hms] at h
          cases h
          exact .ofWrites (entriesToJson_wellFormed hms)
  | .tagged _ value, v, h => by
      rw [Value.toJson] at h
      exact Value.toJson_wellFormed h

theorem itemsToJson_wellFormed : ∀ {xs : List Value} {ys : List Json},
    itemsToJson xs = .ok ys → ∀ y ∈ ys, y.WellFormed
  | [], _, h => by cases h; exact fun y hy => absurd hy List.not_mem_nil
  | x :: xs, ys, h => by
      rw [itemsToJson] at h
      cases hy : x.toJson with
      | error e => rw [hy] at h; cases h
      | ok y =>
          cases hzs : itemsToJson xs with
          | error e => rw [hy, hzs] at h; cases h
          | ok zs =>
              rw [hy, hzs] at h
              cases h
              intro z hz
              rcases List.mem_cons.1 hz with rfl | hz
              · exact Value.toJson_wellFormed hy
              · exact itemsToJson_wellFormed hzs z hz

theorem entriesToJson_wellFormed : ∀ {es : List (Value × Value)} {ms : List (String × Json)},
    entriesToJson es = .ok ms → ∀ key v, (key, v) ∈ ms → v.WellFormed
  | [], _, h => by cases h; exact fun key v hm => absurd hm List.not_mem_nil
  | (k, w) :: es, ms, h => by
      rw [entriesToJson] at h
      cases hkey : keyText k with
      | error e => rw [hkey] at h; cases h
      | ok key =>
          cases hv : w.toJson with
          | error e => rw [hkey, hv] at h; cases h
          | ok v =>
              cases hns : entriesToJson es with
              | error e => rw [hkey, hv, hns] at h; cases h
              | ok ns =>
                  rw [hkey, hv, hns] at h
                  cases h
                  intro key' u hu
                  rcases List.mem_cons.1 hu with hu | hu
                  · cases hu
                    exact Value.toJson_wellFormed hv
                  · exact entriesToJson_wellFormed hns key' u hu

end

end Yaml

/-- **Whatever is read has each key once**, in either language. -/
theorem readDocument_wellFormed {format : Format} {text : String} {v : Json}
    (h : readDocument format text = .ok v) : v.WellFormed := by
  cases format with
  | json =>
      rw [readDocument] at h
      split at h
      · next hv =>
          cases h
          exact Json.read?_wellFormed hv
      · cases h
  | yaml =>
      rw [readDocument] at h
      split at h
      · exact Yaml.Value.toJson_wellFormed h
      · cases h

end EndpointBindings
