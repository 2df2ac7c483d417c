/-!
# Ordered tables

Objects of a document, properties of a schema, routes of an API: each is a table whose entries keep
the order in which their keys were first written.  A table is a list of pairs with one pair per
key; `get?` reads it, `put` writes it.

Writing a key that is already there changes its value and leaves its position alone, so that a
table read from a document lists its keys in document order whatever is repeated (`keys_put`).
Removing a key with `swapErase` moves the last entry into the gap.  That costs no shifting, and it
is observable: the converted form of a document lists some keys in the order that this leaves.
-/

namespace EndpointBindings

/-- A table with entries in the order in which their keys were first written. -/
abbrev Ordered (κ α : Type) := List (κ × α)

namespace Ordered

variable {κ α β : Type} [DecidableEq κ]

/-- The value at a key. -/
def get? : Ordered κ α → κ → Option α
  | [], _ => none
  | (k', v) :: es, k => if k' = k then some v else get? es k

/-- Whether a key is present. -/
def has (es : Ordered κ α) (k : κ) : Bool := (get? es k).isSome

/-- The keys, in order. -/
def keys (es : Ordered κ α) : List κ := es.map (·.1)

/-- Write a value: in place when the key is present, at the end when it is new. -/
def put : Ordered κ α → κ → α → Ordered κ α
  | [], k, v => [(k, v)]
  | (k', v') :: es, k, v => if k' = k then (k', v) :: es else (k', v') :: put es k v

/-- Write every entry of the second table into the first, in order. -/
def putAll (es new : Ordered κ α) : Ordered κ α :=
  new.foldl (fun table e => put table e.1 e.2) es

/-- The table that a sequence of writes leaves: first positions, last values. -/
def ofWrites (writes : List (κ × α)) : Ordered κ α := putAll [] writes

/-- Remove a key; the last entry takes the place of the removed one. -/
def swapErase : Ordered κ α → κ → Ordered κ α
  | [], _ => []
  | e :: es, k =>
    if e.1 = k then
      match es.getLast? with
      | none => []
      | some last => last :: es.dropLast
    else e :: swapErase es k

/-- Apply a function to every value; keys and order stay. -/
def mapValues (f : α → β) (es : Ordered κ α) : Ordered κ β := es.map fun e => (e.1, f e.2)

/-! ## Reading after writing -/

@[simp] theorem get?_nil (k : κ) : get? ([] : Ordered κ α) k = none := rfl

theorem get?_cons (e : κ × α) (es : Ordered κ α) (k : κ) :
    get? (e :: es) k = if e.1 = k then some e.2 else get? es k := rfl

/-- A write is read back at its own key and seen at no other. -/
theorem get?_put (es : Ordered κ α) (k : κ) (v : α) (k' : κ) :
    get? (put es k v) k' = if k = k' then some v else get? es k' := by
  induction es with
  | nil => simp [put, get?]
  | cons e es ih =>
    by_cases h : e.1 = k
    · subst h
      by_cases hk : e.1 = k' <;> simp [put, get?, hk]
    · by_cases hk : k = k'
      · subst hk
        simp [put, get?, h, ih]
      · simp [put, get?, h, ih, hk]

/-- The keys after a write: unchanged when the key was there, else with it at the end. -/
theorem keys_put (es : Ordered κ α) (k : κ) (v : α) :
    keys (put es k v) = if k ∈ keys es then keys es else keys es ++ [k] := by
  induction es with
  | nil => simp [put, keys]
  | cons e es ih =>
    by_cases h : e.1 = k
    · simp [put, keys, h]
    · have h' : ¬ k = e.1 := fun hk => h hk.symm
      simp only [keys] at ih
      by_cases hm : k ∈ es.map (·.1)
      · simp [put, keys, h, h', ih, hm]
      · simp [put, keys, h, h', ih, hm]

theorem get?_isSome_iff (es : Ordered κ α) (k : κ) : (get? es k).isSome ↔ k ∈ keys es := by
  induction es with
  | nil => simp [get?, keys]
  | cons e es ih =>
    by_cases h : e.1 = k
    · simp [get?, keys, h]
    · have h' : ¬ k = e.1 := fun hk => h hk.symm
      simp only [keys] at ih
      simp [get?, keys, h, h', ih]

/-- Keys stay distinct under a write. -/
theorem nodup_keys_put {es : Ordered κ α} (h : (keys es).Nodup) (k : κ) (v : α) :
    (keys (put es k v)).Nodup := by
  rw [keys_put]
  split
  · exact h
  · next hk => exact List.nodup_append.2 ⟨h, by simp, by intro a ha b hb; simp_all; grind⟩

end Ordered

end EndpointBindings
