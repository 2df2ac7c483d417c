import EndpointBindings.Document.Spec
import EndpointBindings.Proofs.Tables
import Mathlib.Data.List.Forall2

/-!
# Tables with related entries

Two tables whose entries are related place by place stay so under everything that is done to tables.
What is asked of the relation is only that it does not confuse the key at hand with another: an
entry has that key exactly when the related entry has it.
-/

namespace EndpointBindings.Ordered

variable {κ α β : Type} [DecidableEq κ] {S : κ × α → κ × β → Prop} {es : Ordered κ α}
  {fs : Ordered κ β} {k : κ}

/-- Related entries agree on whether a key is theirs. -/
def Keeps (S : κ × α → κ × β → Prop) (k : κ) : Prop := ∀ e f, S e f → (e.1 = k ↔ f.1 = k)

/-- Related tables hold related values, or none of them holds any. -/
theorem get?_rel (hk : Keeps S k) (h : List.Forall₂ S es fs) :
    Option.Rel (fun v w => S (k, v) (k, w)) (get? es k) (get? fs k) := by
  induction h with
  | nil => exact .none
  | @cons e f _ _ hef _ ih =>
      rw [get?_cons, get?_cons]
      by_cases he : e.1 = k
      · have hf : f.1 = k := (hk e f hef).1 he
        rw [if_pos he, if_pos hf]
        subst he
        obtain ⟨_, _⟩ := f
        cases hf
        exact .some hef
      · have hf : f.1 ≠ k := fun hf => he ((hk e f hef).2 hf)
        rw [if_neg he, if_neg hf]
        exact ih

/-- Related tables hold the same where related entries with the key hold the same. -/
theorem get?_eq_of_rel {es fs : Ordered κ α} {S : κ × α → κ × α → Prop} (hk : Keeps S k)
    (hS : ∀ v w, S (k, v) (k, w) → v = w) (h : List.Forall₂ S es fs) : get? es k = get? fs k := by
  have hrel := get?_rel hk h
  generalize get? es k = value, get? fs k = value' at hrel ⊢
  cases hrel with
  | none => rfl
  | some hvw => rw [hS _ _ hvw]

theorem put_rel (hk : Keeps S k) (h : List.Forall₂ S es fs) {v : α} {w : β}
    (hvw : S (k, v) (k, w)) : List.Forall₂ S (put es k v) (put fs k w) := by
  induction h with
  | nil => exact .cons hvw .nil
  | @cons e f _ _ hef hrest ih =>
      rw [put, put]
      by_cases he : e.1 = k
      · have hf : f.1 = k := (hk e f hef).1 he
        rw [if_pos he, if_pos hf, he, hf]
        exact .cons hvw hrest
      · have hf : f.1 ≠ k := fun hf => he ((hk e f hef).2 hf)
        rw [if_neg he, if_neg hf]
        exact .cons hef ih

omit [DecidableEq κ] in
theorem lastFirst_rel (h : List.Forall₂ S es fs) :
    List.Forall₂ S (lastFirst es) (lastFirst fs) := by
  rcases List.eq_nil_or_concat es with rfl | ⟨before, last, rfl⟩
  · cases h
    exact .nil
  · have hreversed := List.forall₂_reverse_iff.2 h
    rw [List.concat_eq_append, List.reverse_concat] at hreversed
    obtain ⟨last', before', hlast, hbefore, hfs⟩ := List.forall₂_cons_left_iff.1 hreversed
    have hfs' : fs = before'.reverse ++ [last'] := by
      rw [← List.reverse_reverse fs, hfs, List.reverse_cons]
    rw [hfs', lastFirst_concat, List.concat_eq_append, lastFirst_concat]
    exact .cons hlast (List.forall₂_reverse_iff.1 (by rwa [List.reverse_reverse]))

theorem swapErase_rel (hk : Keeps S k) (h : List.Forall₂ S es fs) :
    List.Forall₂ S (swapErase es k) (swapErase fs k) := by
  induction h with
  | nil => exact .nil
  | @cons e f es fs hef hrest ih =>
      rw [swapErase_cons, swapErase_cons]
      by_cases he : e.1 = k
      · have hf : f.1 = k := (hk e f hef).1 he
        rw [if_pos he, if_pos hf]
        exact lastFirst_rel hrest
      · have hf : f.1 ≠ k := fun hf => he ((hk e f hef).2 hf)
        rw [if_neg he, if_neg hf]
        exact .cons hef ih

omit [DecidableEq κ] in
/-- Related lists become equal under functions that do not tell related elements apart. -/
theorem map_eq_of_rel {α β γ : Type} {S : α → β → Prop} {f : α → γ} {g : β → γ}
    (hfg : ∀ a b, S a b → f a = g b) {as : List α} {bs : List β} (h : List.Forall₂ S as bs) :
    as.map f = bs.map g := by
  rw [← List.forall₂_eq_eq_eq]
  exact List.rel_map (fun a b hab => hfg a b hab) h

theorem filterMap_eq_of_rel {α β γ : Type} {S : α → β → Prop} {f : α → Option γ}
    {g : β → Option γ} (hfg : ∀ a b, S a b → f a = g b) {as : List α} {bs : List β}
    (h : List.Forall₂ S as bs) : as.filterMap f = bs.filterMap g := by
  rw [← List.forall₂_eq_eq_eq]
  refine List.rel_filterMap (fun a b hab => ?_) h
  rw [hfg a b hab]
  cases g b with
  | none => exact .none
  | some c => exact .some rfl

end EndpointBindings.Ordered

namespace EndpointBindings

/-- What is read from related entries is related, when it is so for every single one. -/
theorem Json.entries_rel {α β : Type} {read : Json → Option α}
    {read' : Json → Option β} {R : α → β → Prop} {S : String × Json → String × Json → Prop}
    (hS : ∀ e e', S e e' → e.1 = e'.1 ∧ Option.Rel R (read e.2) (read' e'.2))
    {ms ms' : List (String × Json)} (h : List.Forall₂ S ms ms') :
    List.Forall₂ (fun p p' => p.1 = p'.1 ∧ R p.2 p'.2) (entries read ms) (entries read' ms') := by
  refine List.rel_filterMap ?_ h
  rintro ⟨key, u⟩ ⟨_, u'⟩ he
  obtain ⟨rfl, hread⟩ := hS _ _ he
  dsimp only at hread ⊢
  generalize read u = a, read' u' = b at hread ⊢
  cases hread with
  | none => exact .none
  | some hab => exact .some ⟨rfl, hab⟩

end EndpointBindings
