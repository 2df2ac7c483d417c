import EndpointBindings.Ordered
import Mathlib.Data.List.Nodup

/-!
# Laws of tables

What a sequence of writes leaves: a key stands where it was written first and holds what was written
last.  From the two laws of one write (`Ordered.keys_put`, `Ordered.get?_put`) follow those of many
(`keys_ofWrites`, `get?_ofWrites`), and that writing is associative (`putAll_putAll`): a table may
be filled first and then written into another, or its writes may go into the other one directly.
-/

namespace EndpointBindings.Ordered

variable {κ α β : Type} [DecidableEq κ]

omit [DecidableEq κ] in
theorem keys_append (es fs : Ordered κ α) : keys (es ++ fs) = keys es ++ keys fs :=
  List.map_append

omit [DecidableEq κ] in
theorem mem_keys_of_mem {k : κ} {v : α} {es : Ordered κ α} (h : (k, v) ∈ es) : k ∈ keys es :=
  List.mem_map.2 ⟨(k, v), h, rfl⟩

/-! ## Looking up -/

/-- What a table holds at a key is one of its entries. -/
theorem mem_of_get? {es : Ordered κ α} {k : κ} {v : α} (h : get? es k = some v) : (k, v) ∈ es := by
  induction es with
  | nil => cases h
  | cons e es ih =>
      rw [get?_cons] at h
      split at h
      · next hk =>
          cases h
          exact hk ▸ List.mem_cons_self
      · exact List.mem_cons_of_mem _ (ih h)

/-- With each key once, every entry is what its key holds. -/
theorem get?_of_mem {es : Ordered κ α} (hnodup : (keys es).Nodup) {k : κ} {v : α}
    (h : (k, v) ∈ es) : get? es k = some v := by
  induction es with
  | nil => exact absurd h List.not_mem_nil
  | cons e es ih =>
      obtain ⟨hfresh, hrest⟩ := List.nodup_cons.1 hnodup
      rw [get?_cons]
      rcases List.mem_cons.1 h with h | h
      · cases h
        rw [if_pos rfl]
      · have hne : e.1 ≠ k := by
          rintro rfl
          exact hfresh (mem_keys_of_mem h)
        rw [if_neg hne, ih hrest h]

theorem get?_eq_none_iff {es : Ordered κ α} {k : κ} : get? es k = none ↔ k ∉ keys es := by
  rw [← get?_isSome_iff, Option.not_isSome_iff_eq_none]

theorem get?_append (es fs : Ordered κ α) (k : κ) :
    get? (es ++ fs) k = (get? es k).or (get? fs k) := by
  induction es with
  | nil => rfl
  | cons e es ih =>
      rw [List.cons_append, get?_cons, get?_cons, ih]
      split <;> rfl

/-- A filter that keeps a key's entries is not seen at the key. -/
theorem get?_filter {es : Ordered κ α} {k : κ} {keep : κ × α → Bool}
    (hkeep : ∀ v, keep (k, v) = true) : get? (es.filter keep) k = get? es k := by
  induction es with
  | nil => rfl
  | cons e es ih =>
      rw [get?_cons]
      by_cases he : e.1 = k
      · subst he
        rw [List.filter_cons_of_pos (hkeep e.2), get?_cons, if_pos rfl, if_pos rfl]
      · rw [if_neg he, ← ih, List.filter_cons]
        split
        · rw [get?_cons, if_neg he]
        · rfl

theorem get?_mapValues (f : α → β) (es : Ordered κ α) (k : κ) :
    get? (mapValues f es) k = (get? es k).map f := by
  induction es with
  | nil => rfl
  | cons e es ih =>
      show get? ((e.1, f e.2) :: mapValues f es) k = _
      rw [get?_cons, get?_cons, ih]
      split <;> rfl

omit [DecidableEq κ] in
theorem keys_mapValues (f : α → β) (es : Ordered κ α) : keys (mapValues f es) = keys es := by
  simp only [keys, mapValues, List.map_map]
  rfl

/-! ## One write after another -/

theorem put_of_not_mem {es : Ordered κ α} {k : κ} (h : k ∉ keys es) (v : α) :
    put es k v = es ++ [(k, v)] := by
  induction es with
  | nil => rfl
  | cons e es ih =>
      have hne : e.1 ≠ k := fun hk => h (hk ▸ List.mem_cons_self)
      rw [put, if_neg hne, ih (fun hm => h (List.mem_cons_of_mem _ hm)), List.cons_append]

/-- A second write at a key hides the first. -/
theorem put_put (es : Ordered κ α) (k : κ) (v w : α) : put (put es k v) k w = put es k w := by
  induction es with
  | nil => simp [put]
  | cons e es ih =>
      by_cases h : e.1 = k
      · simp [put, h]
      · simp [put, h, ih]

/-- Writes at different keys change places, when one of the keys has its position already. -/
theorem put_comm {es : Ordered κ α} {k k' : κ} (hne : k ≠ k') (hk : k ∈ keys es) (v v' : α) :
    put (put es k' v') k v = put (put es k v) k' v' := by
  induction es with
  | nil => exact absurd hk List.not_mem_nil
  | cons e es ih =>
      by_cases h : e.1 = k
      · have h' : e.1 ≠ k' := fun he => hne (h.symm.trans he)
        simp [put, h, hne]
      · have hk : k ∈ keys es := (List.mem_cons.1 hk).resolve_left fun he => h he.symm
        by_cases h' : e.1 = k'
        · simp [put, h', hne.symm]
        · simp [put, h, h', ih hk]

theorem mem_keys_put (es : Ordered κ α) (k : κ) (v : α) : k ∈ keys (put es k v) := by
  rw [keys_put]
  split
  · assumption
  · exact List.mem_append_right _ (List.mem_singleton_self k)

/-! ## Many writes -/

theorem putAll_cons (es : Ordered κ α) (e : κ × α) (new : Ordered κ α) :
    putAll es (e :: new) = putAll (put es e.1 e.2) new := rfl

theorem putAll_append (es new more : Ordered κ α) :
    putAll es (new ++ more) = putAll (putAll es new) more :=
  List.foldl_append

/-- A write at a key that the others leave alone may come before them or after. -/
theorem put_putAll {es : Ordered κ α} {k : κ} (hk : k ∈ keys es) (v : α) {new : Ordered κ α}
    (hnew : k ∉ keys new) : put (putAll es new) k v = putAll (put es k v) new := by
  induction new generalizing es with
  | nil => rfl
  | cons e new ih =>
      have hne : k ≠ e.1 := fun h => hnew (h ▸ List.mem_cons_self)
      have hk' : k ∈ keys (put es e.1 e.2) := by
        rw [keys_put]
        split
        · exact hk
        · exact List.mem_append_left _ hk
      rw [putAll_cons, putAll_cons, ih hk' (fun h => hnew (List.mem_cons_of_mem _ h)),
        put_comm hne hk]

theorem putAll_put (es : Ordered κ α) {b : Ordered κ α} (hb : (keys b).Nodup) (k : κ) (v : α) :
    putAll es (put b k v) = put (putAll es b) k v := by
  induction b generalizing es with
  | nil => rfl
  | cons e b ih =>
      obtain ⟨hfresh, hrest⟩ := List.nodup_cons.1 hb
      by_cases h : e.1 = k
      · subst h
        rw [put, if_pos rfl, putAll_cons, putAll_cons, put_putAll (mem_keys_put ..) v hfresh,
          put_put]
      · rw [put, if_neg h, putAll_cons, putAll_cons, ih _ hrest]

/-- **Writing is associative**, as long as the table in the middle has each key once. -/
theorem putAll_putAll (a : Ordered κ α) {b : Ordered κ α} (hb : (keys b).Nodup)
    (c : Ordered κ α) : putAll a (putAll b c) = putAll (putAll a b) c := by
  induction c generalizing b with
  | nil => rfl
  | cons e c ih => rw [putAll_cons, putAll_cons, ih (nodup_keys_put hb ..), putAll_put a hb]

theorem nodup_keys_putAll {es : Ordered κ α} (h : (keys es).Nodup) (new : Ordered κ α) :
    (keys (putAll es new)).Nodup := by
  induction new generalizing es with
  | nil => exact h
  | cons e new ih => exact ih (nodup_keys_put h ..)

theorem nodup_keys_ofWrites (writes : List (κ × α)) : (keys (ofWrites writes)).Nodup :=
  nodup_keys_putAll (show (keys ([] : Ordered κ α)).Nodup from List.nodup_nil) writes

/-- A table whose keys are new is written behind the other as it is. -/
theorem putAll_of_disjoint {es new : Ordered κ α} (h : (keys (es ++ new)).Nodup) :
    putAll es new = es ++ new := by
  induction new generalizing es with
  | nil => exact (List.append_nil es).symm
  | cons e new ih =>
      have hfresh : e.1 ∉ keys es := by
        rw [keys_append, List.nodup_append] at h
        exact fun hm => h.2.2 _ hm e.1 List.mem_cons_self rfl
      rw [putAll_cons, put_of_not_mem hfresh]
      show putAll (es ++ [e]) new = es ++ e :: new
      rw [ih (by simpa using h)]
      simp

theorem ofWrites_of_nodup {es : Ordered κ α} (h : (keys es).Nodup) : ofWrites es = es :=
  putAll_of_disjoint h

/-- Writing into a table is writing its own entries first. -/
theorem putAll_eq_ofWrites {es : Ordered κ α} (h : (keys es).Nodup) (new : Ordered κ α) :
    putAll es new = ofWrites (es ++ new) := by
  rw [ofWrites, putAll_append]
  exact congrArg (putAll · new) (ofWrites_of_nodup h).symm

/-- An entry that a write leaves was there or was written. -/
theorem mem_of_mem_put {es : Ordered κ α} {k : κ} {v : α} {e : κ × α} (h : e ∈ put es k v) :
    e ∈ es ∨ e = (k, v) := by
  induction es with
  | nil => exact .inr (List.mem_singleton.1 h)
  | cons g es ih =>
      rw [put] at h
      split at h
      · next hg =>
          rcases List.mem_cons.1 h with rfl | h
          · exact .inr (by rw [hg])
          · exact .inl (List.mem_cons_of_mem _ h)
      · rcases List.mem_cons.1 h with rfl | h
        · exact .inl List.mem_cons_self
        · exact (ih h).imp_left (List.mem_cons_of_mem _)

theorem mem_of_mem_putAll {es new : Ordered κ α} {e : κ × α} (h : e ∈ putAll es new) :
    e ∈ es ∨ e ∈ new := by
  induction new generalizing es with
  | nil => exact .inl h
  | cons f new ih =>
      rcases ih h with hm | hm
      · rcases mem_of_mem_put hm with hm | rfl
        · exact .inl hm
        · exact .inr List.mem_cons_self
      · exact .inr (List.mem_cons_of_mem _ hm)

/-- Writes leave nothing that was not written. -/
theorem mem_of_mem_ofWrites {writes : List (κ × α)} {e : κ × α} (h : e ∈ ofWrites writes) :
    e ∈ writes :=
  (mem_of_mem_putAll h).resolve_left List.not_mem_nil

/-! ## What is left -/

theorem eraseDups_append_cons_of_mem {ks rest : List κ} {k : κ} (h : k ∈ ks) :
    (ks ++ k :: rest).eraseDups = (ks ++ rest).eraseDups := by
  rw [List.eraseDups_append, List.eraseDups_append]
  simp [List.removeAll, h]

theorem eraseDups_of_nodup {ks : List κ} (h : ks.Nodup) : ks.eraseDups = ks := by
  induction ks with
  | nil => rfl
  | cons k ks ih =>
      obtain ⟨hfresh, hrest⟩ := List.nodup_cons.1 h
      rw [List.eraseDups_cons, List.filter_eq_self.2, ih hrest]
      intro b hb
      have hne : b ≠ k := by
        intro hbk
        exact hfresh (hbk ▸ hb)
      simpa using hne

theorem keys_putAll (es new : Ordered κ α) (h : (keys es).Nodup) :
    keys (putAll es new) = (keys es ++ keys new).eraseDups := by
  induction new generalizing es with
  | nil =>
      show keys es = (keys es ++ []).eraseDups
      rw [List.append_nil, eraseDups_of_nodup h]
  | cons e new ih =>
      rw [putAll_cons, ih _ (nodup_keys_put h ..), keys_put]
      show _ = (keys es ++ e.1 :: keys new).eraseDups
      split
      · next hmem => rw [eraseDups_append_cons_of_mem hmem]
      · rw [List.append_assoc, List.singleton_append]

/-- The keys after many writes are those that were there and those that were written. -/
theorem mem_keys_putAll_iff {es new : Ordered κ α} {k : κ} :
    k ∈ keys (putAll es new) ↔ k ∈ keys es ∨ k ∈ keys new := by
  induction new generalizing es with
  | nil => simp [putAll, keys]
  | cons e new ih =>
      have hput : k ∈ keys (put es e.1 e.2) ↔ k ∈ keys es ∨ k = e.1 := by
        rw [keys_put]
        split
        · next hmem => exact ⟨.inl, fun h => h.elim id fun he => he ▸ hmem⟩
        · rw [List.mem_append, List.mem_singleton]
      rw [putAll_cons, ih, hput, or_assoc]
      refine or_congr_right ?_
      rw [keys, keys, List.map_cons, List.mem_cons]

/-- Keys stand in the order in which they were first written. -/
theorem keys_ofWrites (writes : List (κ × α)) :
    keys (ofWrites writes) = (writes.map (·.1)).eraseDups :=
  keys_putAll [] writes List.nodup_nil

theorem get?_putAll (es new : Ordered κ α) (k : κ) :
    get? (putAll es new) k = ((new.findRev? (·.1 = k)).map (·.2)).or (get? es k) := by
  induction new generalizing es with
  | nil => rfl
  | cons e new ih =>
      rw [putAll_cons, ih, get?_put, List.findRev?]
      cases new.findRev? (·.1 = k) with
      | some f => rfl
      | none =>
          by_cases h : e.1 = k <;> simp [h]

/-- A key holds what was written to it last. -/
theorem get?_ofWrites (writes : List (κ × α)) (k : κ) :
    get? (ofWrites writes) k = (writes.findRev? (·.1 = k)).map (·.2) := by
  rw [ofWrites, get?_putAll, get?_nil, Option.or_none]

/-- A key to which the same was always written. -/
theorem get?_ofWrites_of_unique {writes : List (κ × α)} {k : κ} {v : α} (hmem : (k, v) ∈ writes)
    (hall : ∀ u, (k, u) ∈ writes → u = v) : get? (ofWrites writes) k = some v := by
  have hkey : k ∈ keys (ofWrites writes) := by
    rw [keys_ofWrites, List.mem_eraseDups]
    exact List.mem_map_of_mem hmem
  obtain ⟨u, hu⟩ := Option.isSome_iff_exists.1 ((get?_isSome_iff _ k).2 hkey)
  rw [hu, hall u (mem_of_mem_ofWrites (mem_of_get? hu))]

/-- Writes with computed keys leave the keys in the order of their first sources. -/
theorem keys_ofWrites_map {α β : Type} (key : α → κ) (f : α → β) (as : List α) :
    keys (ofWrites (as.map fun a => (key a, f a))) = (as.map key).eraseDups := by
  rw [keys_ofWrites, List.map_map]
  rfl

/-- Such a key holds what its last source gives. -/
theorem get?_ofWrites_map {α β : Type} (key : α → κ) (f : α → β) (as : List α) (k : κ) :
    get? (ofWrites (as.map fun a => (key a, f a))) k = (as.findRev? (key · = k)).map f := by
  rw [get?_ofWrites, List.findRev?_eq_find?_reverse, List.findRev?_eq_find?_reverse,
    ← List.map_reverse, List.find?_map, Option.map_map]
  rfl

theorem mapValues_put (f : α → β) (es : Ordered κ α) (k : κ) (v : α) :
    mapValues f (put es k v) = put (mapValues f es) k (f v) := by
  induction es with
  | nil => rfl
  | cons e es ih =>
      show mapValues f (put (e :: es) k v) = put ((e.1, f e.2) :: mapValues f es) k (f v)
      rw [put, put]
      split
      · rfl
      · rw [← ih]
        rfl

/-- A function of the values may be applied before writing. -/
theorem mapValues_ofWrites (f : α → β) (writes : List (κ × α)) :
    mapValues f (ofWrites writes) = ofWrites (mapValues f writes) := by
  have hall : ∀ es : Ordered κ α,
      mapValues f (putAll es writes) = putAll (mapValues f es) (mapValues f writes) := by
    induction writes with
    | nil => exact fun es => rfl
    | cons e writes ih =>
        intro es
        rw [putAll_cons, ih, mapValues_put]
        rfl
  exact hall []

theorem filter_put (keep : κ → Bool) (es : Ordered κ α) (k : κ) (v : α) :
    (put es k v).filter (fun e => keep e.1) =
      if keep k then put (es.filter fun e => keep e.1) k v else es.filter fun e => keep e.1 := by
  induction es with
  | nil => by_cases hk : keep k <;> simp [put, hk]
  | cons e es ih =>
      by_cases h : e.1 = k
      · subst h
        by_cases hk : keep e.1 <;> simp [put, hk]
      · by_cases hk : keep k <;> by_cases he : keep e.1 <;> simp [put, h, hk, he, ih]

/-- Some keys may be left out before writing. -/
theorem filter_ofWrites (keep : κ → Bool) (writes : List (κ × α)) :
    (ofWrites writes).filter (fun e => keep e.1) = ofWrites (writes.filter fun e => keep e.1) := by
  have hall : ∀ es : Ordered κ α, (putAll es writes).filter (fun e => keep e.1) =
      putAll (es.filter fun e => keep e.1) (writes.filter fun e => keep e.1) := by
    induction writes with
    | nil => exact fun es => rfl
    | cons e writes ih =>
        intro es
        rw [putAll_cons, ih, filter_put, List.filter_cons]
        split
        · rfl
        · rfl
  exact hall []

/-- What is read from entries, with keys of their own, has these keys in their order. -/
theorem map_filterMap_sublist {α β γ : Type} {f : α → Option β} {key : α → γ} {key' : β → γ}
    {as : List α} (h : ∀ a ∈ as, ∀ b, f a = some b → key' b = key a) :
    ((as.filterMap f).map key').Sublist (as.map key) := by
  induction as with
  | nil => exact List.Sublist.refl []
  | cons a as ih =>
      have hrest := ih fun a' ha' => h a' (List.mem_cons_of_mem a ha')
      rw [List.filterMap_cons]
      cases hb : f a with
      | none => exact hrest.cons (key a)
      | some b =>
          rw [List.map_cons, List.map_cons, h a List.mem_cons_self b hb]
          exact hrest.cons_cons (key a)

/-! ## Writes that stay

Of several writes to one key the last one stays.  `lastOf` is the sources of the writes that stay,
and the table has one entry for each of them. -/

/-- The elements with a key that no later element has. -/
def lastOf {α : Type} (key : α → κ) : List α → List α
  | [] => []
  | a :: as => if key a ∈ as.map key then lastOf key as else a :: lastOf key as

theorem lastOf_sublist {α : Type} (key : α → κ) (as : List α) : (lastOf key as).Sublist as := by
  induction as with
  | nil => exact List.Sublist.refl []
  | cons a as ih =>
      rw [lastOf]
      split
      · exact ih.cons a
      · exact ih.cons_cons a

theorem mem_lastOf_iff {α : Type} {key : α → κ} {as : List α} {a : α} :
    a ∈ lastOf key as ↔
      ∃ before behind, as = before ++ a :: behind ∧ ∀ b ∈ behind, key b ≠ key a := by
  induction as with
  | nil => simp [lastOf]
  | cons c as ih =>
      have hkeys : key c ∈ as.map key ↔ ∃ b ∈ as, key b = key c := List.mem_map
      constructor
      · intro h
        have hrest : a ∈ lastOf key as → ∃ before behind, c :: as = before ++ a :: behind ∧
            ∀ b ∈ behind, key b ≠ key a := by
          intro hm
          obtain ⟨before, behind, rfl, hbehind⟩ := ih.1 hm
          exact ⟨c :: before, behind, rfl, hbehind⟩
        rw [lastOf] at h
        split at h
        · exact hrest h
        · next hfresh =>
            rcases List.mem_cons.1 h with rfl | h
            · exact ⟨[], as, rfl, fun b hb he => hfresh (hkeys.2 ⟨b, hb, he⟩)⟩
            · exact hrest h
      · rintro ⟨before, behind, has, hbehind⟩
        rw [lastOf]
        cases before with
        | nil =>
            obtain ⟨rfl, rfl⟩ := List.cons.inj has
            have hfresh : key c ∉ as.map key := by
              intro hm
              obtain ⟨b, hb, he⟩ := hkeys.1 hm
              exact hbehind b hb he
            rw [if_neg hfresh]
            exact List.mem_cons_self
        | cons _ before =>
            obtain ⟨rfl, rfl⟩ := List.cons.inj has
            have hmem := ih.2 ⟨before, behind, rfl, hbehind⟩
            split
            · exact hmem
            · exact List.mem_cons_of_mem _ hmem

theorem nodup_map_lastOf {α : Type} (key : α → κ) (as : List α) :
    ((lastOf key as).map key).Nodup := by
  induction as with
  | nil => exact List.nodup_nil
  | cons a as ih =>
      rw [lastOf]
      split
      · exact ih
      · next hfresh =>
          refine List.nodup_cons.2 ⟨fun hm => hfresh ?_, ih⟩
          exact (List.Sublist.map key (lastOf_sublist key as)).subset hm

/-- The last element with a key is found from the end. -/
theorem findRev?_eq_some_iff_mem_lastOf {α : Type} {key : α → κ} {as : List α} {a : α} {k : κ} :
    as.findRev? (key · = k) = some a ↔ a ∈ lastOf key as ∧ key a = k := by
  rw [List.findRev?_eq_find?_reverse, List.find?_eq_some_iff_append, mem_lastOf_iff]
  simp only [decide_eq_true_eq, Bool.not_eq_true', decide_eq_false_iff_not]
  constructor
  · rintro ⟨rfl, behind, before, has, hbehind⟩
    refine ⟨⟨before.reverse, behind.reverse, ?_, fun b hb => hbehind b (List.mem_reverse.1 hb)⟩,
      rfl⟩
    rw [← as.reverse_reverse, has]
    simp
  · rintro ⟨⟨before, behind, rfl, hbehind⟩, rfl⟩
    refine ⟨rfl, behind.reverse, before.reverse, ?_, fun b hb => hbehind b (List.mem_reverse.1 hb)⟩
    simp

/-- **What many writes leave** is the last write to each key, in some order. -/
theorem ofWrites_map_perm {α β : Type} (key : α → κ) (f : α → β) (as : List α) :
    (ofWrites (as.map fun a => (key a, f a))).Perm
      ((lastOf key as).map fun a => (key a, f a)) := by
  have hkeys : (keys ((lastOf key as).map fun a => (key a, f a))).Nodup := by
    rw [keys, List.map_map]
    exact nodup_map_lastOf key as
  refine (List.perm_ext_iff_of_nodup (List.Nodup.of_map _ (nodup_keys_ofWrites _))
    (List.Nodup.of_map _ hkeys)).2 ?_
  rintro ⟨k, v⟩
  have hmem : (k, v) ∈ ofWrites (as.map fun a => (key a, f a)) ↔
      get? (ofWrites (as.map fun a => (key a, f a))) k = some v :=
    ⟨get?_of_mem (nodup_keys_ofWrites _), mem_of_get?⟩
  rw [hmem, get?_ofWrites_map, Option.map_eq_some_iff, List.mem_map]
  refine exists_congr fun a => ?_
  rw [findRev?_eq_some_iff_mem_lastOf, Prod.mk.injEq, and_assoc]

theorem mem_ofWrites_iff {writes : Ordered κ α} {e : κ × α} :
    e ∈ ofWrites writes ↔
      ∃ before behind, writes = before ++ e :: behind ∧ ∀ b ∈ behind, b.1 ≠ e.1 := by
  have hperm := ofWrites_map_perm Prod.fst Prod.snd writes
  rw [List.map_id', List.map_id'] at hperm
  rw [hperm.mem_iff, mem_lastOf_iff]

omit [DecidableEq κ] in
/-- Two tables with the same keys in the same order, each key once, are one table when the second
has the entries of the first. -/
theorem eq_of_subset {es fs : Ordered κ α} (hkeys : keys es = keys fs) (hnodup : (keys fs).Nodup)
    (h : ∀ e ∈ es, e ∈ fs) : es = fs := by
  induction es generalizing fs with
  | nil => exact (List.map_eq_nil_iff.1 hkeys.symm).symm
  | cons e es ih =>
      cases fs with
      | nil => cases hkeys
      | cons f fs =>
          obtain ⟨hkey, hrest⟩ := List.cons.inj hkeys
          obtain ⟨hfresh, hnodup⟩ := List.nodup_cons.1 hnodup
          have he : e = f := by
            refine (List.mem_cons.1 (h e List.mem_cons_self)).resolve_right fun hm => hfresh ?_
            exact hkey ▸ mem_keys_of_mem hm
          have hes : ∀ e' ∈ es, e' ∈ fs := by
            intro e' he'
            refine (List.mem_cons.1 (h e' (List.mem_cons_of_mem e he'))).resolve_left ?_
            rintro rfl
            exact hfresh (hrest ▸ mem_keys_of_mem he')
          rw [he, ih hrest hnodup hes]

/-- The table that writes leave, said without making it: a key stands where it was written first
and holds what was written to it last. -/
structure Leaves (writes es : Ordered κ α) : Prop where
  first : keys es = (keys writes).eraseDups
  last : ∀ e ∈ es, ∃ before behind, writes = before ++ e :: behind ∧ ∀ b ∈ behind, b.1 ≠ e.1

theorem leaves_iff {writes es : Ordered κ α} : Leaves writes es ↔ es = ofWrites writes := by
  constructor
  · intro h
    refine eq_of_subset (h.first.trans (keys_ofWrites writes).symm) (nodup_keys_ofWrites writes) ?_
    exact fun e he => mem_ofWrites_iff.2 (h.last e he)
  · rintro rfl
    exact ⟨keys_ofWrites writes, fun e he => mem_ofWrites_iff.1 he⟩

/-- What a table holds, read off the same entries in another order. -/
theorem get?_eq_some_iff_of_perm {es fs : Ordered κ α} (hnodup : (keys es).Nodup)
    (h : es.Perm fs) {k : κ} {v : α} : get? es k = some v ↔ (k, v) ∈ fs := by
  rw [← h.mem_iff]
  exact ⟨mem_of_get?, get?_of_mem hnodup⟩

/-! ## Taking a key out

The last entry moves into the gap, so that what is left is the other entries in another order. -/

/-- Entries with the last one first. -/
def lastFirst {α : Type} (xs : List α) : List α :=
  match xs.getLast? with
  | none => []
  | some last => last :: xs.dropLast

theorem lastFirst_concat {α : Type} (xs : List α) (last : α) :
    lastFirst (xs ++ [last]) = last :: xs := by
  simp [lastFirst]

theorem lastFirst_perm {α : Type} (xs : List α) : (lastFirst xs).Perm xs := by
  cases h : xs.getLast? with
  | none =>
      rw [List.getLast?_eq_none_iff.1 h]
      exact .refl []
  | some last =>
      rw [lastFirst, h]
      obtain ⟨ys, rfl⟩ := List.getLast?_eq_some_iff.1 h
      rw [List.dropLast_concat]
      exact (List.perm_append_singleton last ys).symm

theorem lastFirst_map {α β : Type} (f : α → β) (xs : List α) :
    lastFirst (xs.map f) = (lastFirst xs).map f := by
  rw [lastFirst, lastFirst, List.getLast?_map]
  cases xs.getLast? with
  | none => rfl
  | some last => simp

theorem lastFirst_of_length_le_one {α : Type} {xs : List α} (h : xs.length ≤ 1) :
    lastFirst xs = xs := by
  match xs, h with
  | [], _ => rfl
  | [x], _ => rfl

theorem swapErase_cons (e : κ × α) (es : Ordered κ α) (k : κ) :
    swapErase (e :: es) k = if e.1 = k then lastFirst es else e :: swapErase es k := by
  rw [swapErase, lastFirst]
  cases es.getLast? <;> rfl

/-- What is left was there. -/
theorem mem_of_mem_swapErase {es : Ordered κ α} {k : κ} {e : κ × α} (h : e ∈ swapErase es k) :
    e ∈ es := by
  induction es with
  | nil => exact h
  | cons g es ih =>
      rw [swapErase_cons] at h
      split at h
      · exact List.mem_cons_of_mem g ((lastFirst_perm es).mem_iff.1 h)
      · rcases List.mem_cons.1 h with rfl | h
        · exact List.mem_cons_self
        · exact List.mem_cons_of_mem g (ih h)

theorem swapErase_of_not_mem {es : Ordered κ α} {k : κ} (h : k ∉ keys es) :
    swapErase es k = es := by
  induction es with
  | nil => rfl
  | cons e es ih =>
      have hne : e.1 ≠ k := fun hk => h (hk ▸ List.mem_cons_self)
      rw [swapErase, if_neg hne, ih fun hm => h (List.mem_cons_of_mem _ hm)]

theorem swapErase_append_cons {es : Ordered κ α} {k : κ} (h : k ∉ keys es) (v : α)
    (fs : Ordered κ α) : swapErase (es ++ (k, v) :: fs) k = es ++ lastFirst fs := by
  induction es with
  | nil =>
      rw [List.nil_append, swapErase_cons, if_pos rfl, List.nil_append]
  | cons e es ih =>
      have hne : e.1 ≠ k := fun hk => h (hk ▸ List.mem_cons_self)
      rw [List.cons_append, swapErase, if_neg hne, ih fun hm => h (List.mem_cons_of_mem _ hm),
        List.cons_append]

omit [DecidableEq κ] in
theorem keys_perm {es fs : Ordered κ α} (h : es.Perm fs) : (keys es).Perm (keys fs) :=
  h.map Prod.fst

/-- What a key holds does not depend on the order. -/
theorem get?_perm {es fs : Ordered κ α} (hnodup : (keys es).Nodup) (h : es.Perm fs) (k : κ) :
    get? es k = get? fs k := by
  have hnodup' : (keys fs).Nodup := (keys_perm h).nodup_iff.1 hnodup
  cases hes : get? es k with
  | some v => rw [get?_of_mem hnodup' (h.mem_iff.1 (mem_of_get? hes))]
  | none =>
      rw [get?_eq_none_iff] at hes
      exact (get?_eq_none_iff.2 fun hm => hes ((keys_perm h).mem_iff.2 hm)).symm

/-- A key that is there is taken out of the entries, up to their order. -/
theorem exists_perm_swapErase {es : Ordered κ α} {k : κ} (h : k ∈ keys es) :
    ∃ v, es.Perm ((k, v) :: swapErase es k) := by
  induction es with
  | nil => exact absurd h List.not_mem_nil
  | cons e es ih =>
      rw [swapErase_cons]
      by_cases he : e.1 = k
      · rw [if_pos he]
        exact ⟨e.2, he ▸ (lastFirst_perm es).symm.cons e⟩
      · rw [if_neg he]
        obtain ⟨v, hv⟩ := ih ((List.mem_cons.1 h).resolve_left fun h => he h.symm)
        exact ⟨v, (hv.cons e).trans (.swap ..)⟩

theorem nodup_keys_swapErase {es : Ordered κ α} (hnodup : (keys es).Nodup) (k : κ) :
    (keys (swapErase es k)).Nodup := by
  by_cases hk : k ∈ keys es
  · obtain ⟨v, hv⟩ := exists_perm_swapErase hk
    exact (List.nodup_cons.1 ((keys_perm hv).nodup_iff.1 hnodup)).2
  · rwa [swapErase_of_not_mem hk]

/-- A key that is taken out holds nothing, and every other key what it held. -/
theorem get?_swapErase {es : Ordered κ α} (hnodup : (keys es).Nodup) (k k' : κ) :
    get? (swapErase es k) k' = if k = k' then none else get? es k' := by
  by_cases hk : k ∈ keys es
  · obtain ⟨v, hv⟩ := exists_perm_swapErase hk
    obtain ⟨hfresh, -⟩ := List.nodup_cons.1 ((keys_perm hv).nodup_iff.1 hnodup)
    rw [get?_perm hnodup hv, get?_cons]
    split
    · next h => exact get?_eq_none_iff.2 (h ▸ hfresh)
    · rfl
  · rw [swapErase_of_not_mem hk]
    split
    · next h => exact get?_eq_none_iff.2 (h ▸ hk)
    · rfl

end EndpointBindings.Ordered
