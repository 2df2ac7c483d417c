import EndpointBindings.Document.Format
import EndpointBindings.Proofs.Json.WellFormed
import Mathlib.Data.List.Forall2

/-!
# From values to trees

What a value becomes is said by a relation, `Becomes`, with one rule for each way to write a value.
A mapping becomes an object with the distinct texts of its keys, in the order in which they come up,
and under each text the value of the last entry that has it.  Every entry must become something,
also one that a later entry hides.

Only keys stand in the way, and of these only sequences, mappings and tagged values.  The conversion
goes through the keys of all mappings in the order of the document (`Value.keys`), a key coming
before what is inside its value, and stops at the first one without a text.  So a conversion either
fails for that key or gives what the value becomes (`Outcome`), and the keys alone tell which.

A tree written as a value, its keys as strings, becomes that tree (`becomes_ofJson`).
-/

namespace EndpointBindings.Yaml

/-! ## Keys -/

/-- Whether a key has no text. -/
def Value.isCompound : Value → Bool
  | .sequence _ | .mapping _ | .tagged _ _ => true
  | _ => false

/-- The text of a key. -/
inductive Value.HasText : Value → String → Prop
  | string (s : String) : HasText (.string s) s
  | number (n : Number) : HasText (.number n) n.text
  | true : HasText (.bool true) "true"
  | false : HasText (.bool false) "false"
  | null : HasText .null "null"

mutual

/-- The keys of all mappings in a value, in the order of the document. -/
def Value.keys : Value → List Value
  | .sequence xs => keysOfItems xs
  | .mapping es => keysOfEntries es
  | .tagged _ v => v.keys
  | .null | .bool _ | .number _ | .string _ => []

def keysOfItems : List Value → List Value
  | [] => []
  | x :: xs => x.keys ++ keysOfItems xs

/-- A key comes before the keys in its own value. -/
def keysOfEntries : List (Value × Value) → List Value
  | [] => []
  | (k, v) :: es => k :: (v.keys ++ keysOfEntries es)

end

/-- What a value becomes.  The entries of a mapping are written one after the other, each under the
text of its key, and the object is what the writes leave. -/
inductive Becomes : Value → Json → Prop
  | null : Becomes .null .null
  | bool (b : Bool) : Becomes (.bool b) (.bool b)
  | integer (i : Int) : Becomes (.number (.int i)) (.number (.int i))
  | finite (x : Decimal.Binary64) : Becomes (.number (.finite x)) (.number (.float x))
  | infinite (negative : Bool) : Becomes (.number (.infinite negative)) .null
  | nan : Becomes (.number .nan) .null
  | string (s : String) : Becomes (.string s) (.string s)
  | sequence {xs : List Value} {ys : List Json} (items : List.Forall₂ Becomes xs ys) :
      Becomes (.sequence xs) (.list ys)
  | mapping {es : List (Value × Value)} {writes ms : Ordered String Json}
      (keys : List.Forall₂ (fun e w => e.1.HasText w.1) es writes)
      (values : List.Forall₂ (fun e w => Becomes e.2 w.2) es writes)
      (members : Ordered.Leaves writes ms) : Becomes (.mapping es) (.object ms)
  | tagged {v : Value} {y : Json} (tag : String) (value : Becomes v y) : Becomes (.tagged tag v) y

/-! ## How a conversion ends -/

/-- A conversion that goes through keys fails for the first one without a text, if there is one, and
otherwise gives something with a property. -/
inductive Outcome {α : Type} (ks : List Value) (P : α → Prop) : Except Failure α → Prop
  | fails {k : Value} (h : ks.find? (·.isCompound) = some k) :
      Outcome ks P (.error (.unsupportedKey k.shown))
  | gives {a : α} (h : ks.find? (·.isCompound) = none) (ha : P a) : Outcome ks P (.ok a)

/-- Only the first key without a text counts. -/
theorem Outcome.mono {α : Type} {ks ls : List Value} {P Q : α → Prop} {x : Except Failure α}
    (hx : Outcome ks P x) (hkeys : ls.find? (·.isCompound) = ks.find? (·.isCompound))
    (h : ∀ a, P a → Q a) : Outcome ls Q x := by
  cases hx with
  | fails hk => exact .fails (hkeys.trans hk)
  | gives hk ha => exact .gives (hkeys.trans hk) (h _ ha)

/-- One conversion after another goes through the keys of the first before those of the second. -/
theorem Outcome.bind {α β : Type} {ks ls : List Value} {P : α → Prop} {Q : β → Prop}
    {x : Except Failure α} {f : α → Except Failure β} (hx : Outcome ks P x)
    (hf : ∀ a, P a → Outcome ls Q (f a)) : Outcome (ks ++ ls) Q (x >>= f) := by
  cases hx with
  | fails h => exact .fails (by rw [List.find?_append, h, Option.some_or])
  | gives h ha =>
      have hls : (ks ++ ls).find? (·.isCompound) = ls.find? (·.isCompound) := by
        rw [List.find?_append, h, Option.none_or]
      exact (hf _ ha).mono hls fun b hb => hb

theorem Outcome.map {α β : Type} {ks : List Value} {P : α → Prop} {Q : β → Prop}
    {x : Except Failure α} (hx : Outcome ks P x) (f : α → β) (hf : ∀ a, P a → Q (f a)) :
    Outcome ks Q (x >>= fun a => pure (f a)) := by
  rw [← List.append_nil ks]
  exact hx.bind fun a ha => .gives rfl (hf a ha)

theorem keyText_outcome (k : Value) : Outcome [k] k.HasText (keyText k) := by
  cases k with
  | null => exact .gives rfl .null
  | bool b =>
      cases b with
      | false => exact .gives rfl .false
      | true => exact .gives rfl .true
  | number n => exact .gives rfl (.number n)
  | string s => exact .gives rfl (.string s)
  | sequence xs => exact .fails rfl
  | mapping es => exact .fails rfl
  | tagged tag v => exact .fails rfl

theorem Number.becomes_toJson (n : Number) : Becomes (.number n) n.toJson := by
  cases n with
  | int i => exact .integer i
  | finite x => exact .finite x
  | infinite negative => exact .infinite negative
  | nan => exact .nan

mutual

/-- **How a conversion ends**, at every depth: it stops at the first key without a text or gives
what the value becomes. -/
theorem Value.toJson_outcome : ∀ v : Value, Outcome v.keys (Becomes v) v.toJson
  | .null => .gives rfl .null
  | .bool b => .gives rfl (.bool b)
  | .number n => .gives rfl n.becomes_toJson
  | .string s => .gives rfl (.string s)
  | .sequence xs => by
      rw [Value.toJson]
      exact (itemsToJson_outcome xs).map _ fun ys hys => .sequence hys
  | .mapping es => by
      rw [Value.toJson]
      refine (entriesToJson_outcome es).map _ fun writes hwrites => ?_
      exact .mapping hwrites.1 hwrites.2 (Ordered.leaves_iff.2 rfl)
  | .tagged tag v => by
      rw [Value.toJson]
      exact (Value.toJson_outcome v).mono rfl fun y hy => .tagged tag hy

theorem itemsToJson_outcome : ∀ xs : List Value,
    Outcome (keysOfItems xs) (List.Forall₂ Becomes xs) (itemsToJson xs)
  | [] => .gives rfl .nil
  | x :: xs => by
      rw [itemsToJson, keysOfItems]
      refine (Value.toJson_outcome x).bind fun y hy => ?_
      exact (itemsToJson_outcome xs).map _ fun ys hys => .cons hy hys

theorem entriesToJson_outcome : ∀ es : List (Value × Value),
    Outcome (keysOfEntries es)
      (fun writes => List.Forall₂ (fun e w => e.1.HasText w.1) es writes ∧
        List.Forall₂ (fun e w => Becomes e.2 w.2) es writes) (entriesToJson es)
  | [] => .gives rfl ⟨.nil, .nil⟩
  | (k, v) :: es => by
      rw [entriesToJson, keysOfEntries, ← List.singleton_append]
      refine (keyText_outcome k).bind fun key hkey => ?_
      refine (Value.toJson_outcome v).bind fun value hvalue => ?_
      refine (entriesToJson_outcome es).map _ fun writes hwrites => ?_
      exact ⟨.cons hkey hwrites.1, .cons hvalue hwrites.2⟩

end

theorem Value.HasText.keyText_eq {k : Value} {s : String} (h : k.HasText s) :
    keyText k = .ok s := by
  cases h <;> rfl

mutual

theorem Value.toJson_of_becomes : ∀ {v : Value} {y : Json}, Becomes v y → v.toJson = .ok y
  | .null, _, .null => rfl
  | .bool _, _, .bool _ => rfl
  | .number _, _, .integer _ | .number _, _, .finite _ | .number _, _, .infinite _
  | .number _, _, .nan => rfl
  | .string _, _, .string _ => rfl
  | .sequence xs, _, .sequence items => by
      rw [Value.toJson, itemsToJson_of_become items]
      rfl
  | .mapping es, _, .mapping keys values members => by
      rw [Value.toJson, entriesToJson_of_become keys values, Ordered.leaves_iff.1 members]
      rfl
  | .tagged _ v, _, .tagged _ value => by
      rw [Value.toJson, Value.toJson_of_becomes value]

theorem itemsToJson_of_become : ∀ {xs : List Value} {ys : List Json},
    List.Forall₂ Becomes xs ys → itemsToJson xs = .ok ys
  | [], _, .nil => rfl
  | x :: xs, _, .cons item items => by
      rw [itemsToJson, Value.toJson_of_becomes item, itemsToJson_of_become items]
      rfl

theorem entriesToJson_of_become : ∀ {es : List (Value × Value)} {writes : Ordered String Json},
    List.Forall₂ (fun e w => e.1.HasText w.1) es writes →
    List.Forall₂ (fun e w => Becomes e.2 w.2) es writes → entriesToJson es = .ok writes
  | [], _, .nil, .nil => rfl
  | (k, v) :: es, _, .cons key keys, .cons value values => by
      rw [entriesToJson, key.keyText_eq, Value.toJson_of_becomes value,
        entriesToJson_of_become keys values]
      rfl

end

mutual

/-- A tree as a value, with strings as keys. -/
def Value.ofJson : Json → Value
  | .null => .null
  | .bool b => .bool b
  | .number (.int i) => .number (.int i)
  | .number (.float x) => .number (.finite x)
  | .string s => .string s
  | .list xs => .sequence (ofItems xs)
  | .object ms => .mapping (ofMembers ms)

def ofItems : List Json → List Value
  | [] => []
  | x :: xs => Value.ofJson x :: ofItems xs

def ofMembers : List (String × Json) → List (Value × Value)
  | [] => []
  | (key, x) :: ms => (.string key, Value.ofJson x) :: ofMembers ms

end

theorem ofMembers_keys : ∀ ms : List (String × Json),
    List.Forall₂ (fun e w => e.1.HasText w.1) (ofMembers ms) ms
  | [] => .nil
  | (key, _) :: ms => .cons (.string key) (ofMembers_keys ms)

mutual

theorem becomes_ofJson : ∀ {y : Json}, y.WellFormed → Becomes (Value.ofJson y) y
  | .null, _ => .null
  | .bool b, _ => .bool b
  | .number (.int i), _ => .integer i
  | .number (.float x), _ => .finite x
  | .string s, _ => .string s
  | .list _, h => .sequence (become_ofItems (Json.wellFormed_list_iff.1 h))
  | .object ms, h => by
      obtain ⟨hkeys, hvalues⟩ := Json.wellFormed_object_iff.1 h
      refine .mapping (ofMembers_keys ms) (become_ofMembers hvalues) ?_
      exact Ordered.leaves_iff.2 (Ordered.ofWrites_of_nodup hkeys).symm

theorem become_ofItems : ∀ {xs : List Json}, (∀ x ∈ xs, x.WellFormed) →
    List.Forall₂ Becomes (ofItems xs) xs
  | [], _ => .nil
  | x :: _, h => .cons (becomes_ofJson (h x List.mem_cons_self))
      (become_ofItems fun y hy => h y (List.mem_cons_of_mem x hy))

theorem become_ofMembers : ∀ {ms : List (String × Json)},
    (∀ key x, (key, x) ∈ ms → x.WellFormed) →
    List.Forall₂ (fun e w => Becomes e.2 w.2) (ofMembers ms) ms
  | [], _ => .nil
  | (key, x) :: _, h => .cons (becomes_ofJson (h key x List.mem_cons_self))
      (become_ofMembers fun l y hy => h l y (List.mem_cons_of_mem _ hy))

end

/-! ## The conversion as a whole -/

end EndpointBindings.Yaml
