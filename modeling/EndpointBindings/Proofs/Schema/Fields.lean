import EndpointBindings.Proofs.Schema.Keywords
import EndpointBindings.Proofs.Tables
import Mathlib.Data.List.Nodup

/-!
# The fields of a schema, by keyword

Seventeen keywords, and eleven shapes of values between them.  A shape says what a field holds, how
it is read from a value, how it is written, and which values it fits; a keyword is a key with a
shape.  A schema is its fields (`Schema.ext_field`), and a field of the schema that is read from an
object is what the value under the field's own key says (`Schema.field_eq_some_iff`).

| shape | keywords | values that say something |
| :-- | :-- | :-- |
| `typeNames` | `type` | a string, a list of strings |
| `text` | `$ref`, `format`, `description` | a string |
| `texts` | `required` | a list of strings |
| `values` | `enum` | a list |
| `truth` | `nullable` | a boolean |
| `number` | `minimum`, `maximum` | a number |
| `length` | `minLength`, `maxLength` | an integer that is not negative |
| `given` | `default` | anything but null |
| `slot` | `items` | anything but null |
| `slots` | `allOf`, `oneOf`, `anyOf` | a list |
| `namedSlots` | `properties` | an object |
-/

namespace EndpointBindings

open Ordered (get?)

/-- What the values of a keyword look like. -/
inductive Shape where
  | typeNames | text | texts | values | truth | number | length | given | slot | slots | namedSlots
deriving DecidableEq, Repr

namespace Shape

/-- What a field of the shape holds. -/
abbrev Value : Shape → Type
  | typeNames => TypeNames
  | text => String
  | texts => List String
  | values => List Json
  | truth => Bool
  | number => Number
  | length => Nat
  | given => Json
  | slot => Schema
  | slots => List Schema
  | namedSlots => List (String × Schema)

/-- The reader of the shape. -/
def read : (shape : Shape) → Json → Option shape.Value
  | typeNames => TypeNames.ofJson?
  | text => Json.string?
  | texts => Json.strings?
  | values => Json.list?
  | truth => Json.bool?
  | number => Json.number?
  | length => Json.nat?
  | given => Json.nonNull?
  | slot => Schema.slot?
  | slots => Schema.listed?
  | namedSlots => Schema.namedSchemas?

/-- What a value says in the shape.  A value that fits no row of a shape says nothing in it. -/
inductive Says : (shape : Shape) → Json → shape.Value → Prop
  | typeName (name : String) : Says typeNames (.string name) (.single name)
  | typeNames (names : List String) : Says typeNames (.list (names.map .string)) (.several names)
  | text (s : String) : Says text (.string s) s
  | texts (ss : List String) : Says texts (.list (ss.map .string)) ss
  | values (xs : List Json) : Says values (.list xs) xs
  | truth (b : Bool) : Says truth (.bool b) b
  | number (n : Number) : Says number (.number n) n
  | length (n : Nat) : Says length (.number (.int n)) n
  | given {v : Json} (hv : v ≠ .null) : Says given v v
  | slot {v : Json} (hv : v ≠ .null) : Says slot v (Schema.ofJson v)
  | slots (xs : List Json) : Says slots (.list xs) (xs.map Schema.ofJson)
  | namedSlots (ms : List (String × Json)) :
      Says namedSlots (.object ms) (Ordered.mapValues Schema.ofJson ms)

end Shape

/-- The keywords of a schema. -/
inductive Keyword where
  | types | ref | properties | required | items | enumValues | allOf | oneOf | anyOf | format
  | description | nullable | minimum | maximum | minLength | maxLength | default
deriving DecidableEq, Repr

namespace Keyword

/-- The key under which an object holds a keyword. -/
def key : Keyword → String
  | types => "type"
  | ref => "$ref"
  | properties => "properties"
  | required => "required"
  | items => "items"
  | enumValues => "enum"
  | allOf => "allOf"
  | oneOf => "oneOf"
  | anyOf => "anyOf"
  | format => "format"
  | description => "description"
  | nullable => "nullable"
  | minimum => "minimum"
  | maximum => "maximum"
  | minLength => "minLength"
  | maxLength => "maxLength"
  | default => "default"

/-- The shape of a keyword's values. -/
def shape : Keyword → Shape
  | types => .typeNames
  | ref | format | description => .text
  | required => .texts
  | enumValues => .values
  | nullable => .truth
  | minimum | maximum => .number
  | minLength | maxLength => .length
  | default => .given
  | items => .slot
  | allOf | oneOf | anyOf => .slots
  | properties => .namedSlots

/-- The keywords in the order in which a schema is written. -/
def all : List Keyword :=
  [types, ref, properties, required, items, enumValues, allOf, oneOf, anyOf, format, description,
    nullable, minimum, maximum, minLength, maxLength, default]

theorem mem_all (k : Keyword) : k ∈ all := by
  cases k <;> decide

theorem key_injective {k k' : Keyword} (h : k.key = k'.key) : k = k' := by
  have hkeys : (all.map key).Nodup := by decide
  exact List.inj_on_of_nodup_map hkeys (mem_all k) (mem_all k') h

end Keyword

namespace Schema

/-- The field of a keyword. -/
def field (s : Schema) : (k : Keyword) → Option k.shape.Value
  | .types => s.facets.types
  | .ref => s.facets.ref
  | .properties => s.properties
  | .required => s.facets.required
  | .items => s.items
  | .enumValues => s.facets.enumValues
  | .allOf => s.allOf
  | .oneOf => s.oneOf
  | .anyOf => s.anyOf
  | .format => s.facets.format
  | .description => s.facets.description
  | .nullable => s.facets.nullable
  | .minimum => s.facets.minimum
  | .maximum => s.facets.maximum
  | .minLength => s.facets.minLength
  | .maxLength => s.facets.maxLength
  | .default => s.facets.default

/-- **A schema is its fields.** -/
theorem ext_field {s t : Schema} (h : ∀ k, s.field k = t.field k) : s = t := by
  obtain ⟨⟨_, _, _, _, _, _, _, _, _, _, _, _⟩, _, _, _, _, _⟩ := s
  obtain ⟨⟨_, _, _, _, _, _, _, _, _, _, _, _⟩, _, _, _, _, _⟩ := t
  cases h .types
  cases h .ref
  cases h .properties
  cases h .required
  cases h .items
  cases h .enumValues
  cases h .allOf
  cases h .oneOf
  cases h .anyOf
  cases h .format
  cases h .description
  cases h .nullable
  cases h .minimum
  cases h .maximum
  cases h .minLength
  cases h .maxLength
  cases h .default
  rfl

/-- **A field is read from what its own key holds.** -/
theorem field_ofJson (ms : List (String × Json)) (k : Keyword) :
    (ofJson (.object ms)).field k = (get? ms k.key).bind k.shape.read := by
  rw [ofJson, ofMembers_eq]
  cases k <;> rfl

theorem field_empty (k : Keyword) : ({} : Schema).field k = none := by
  cases k <;> rfl

end Schema

/-! ## What is read -/

theorem Json.mapM_string?_eq_some_iff {xs : List Json} {ss : List String} :
    xs.mapM Json.string? = some ss ↔ xs = ss.map Json.string := by
  induction xs generalizing ss with
  | nil => cases ss <;> simp
  | cons x xs ih =>
      cases x with
      | string t =>
          cases ss with
          | nil => simp [Json.string?, Option.bind_eq_some_iff]
          | cons s ss => simp [Json.string?, Option.bind_eq_some_iff, ih, and_comm]
      | null | bool _ | number _ | list _ | object _ => cases ss <;> simp [Json.string?]

theorem Json.strings?_eq_some_iff {v : Json} {ss : List String} :
    v.strings? = some ss ↔ v = .list (ss.map .string) := by
  cases v with
  | list xs =>
      rw [Json.list.injEq]
      exact Json.mapM_string?_eq_some_iff
  | null | bool _ | number _ | string _ | object _ => simp [Json.strings?, Json.list?]

namespace Shape

theorem says_of_read {shape : Shape} {v : Json} {a : shape.Value} (h : shape.read v = some a) :
    shape.Says v a := by
  cases shape with
  | typeNames =>
      cases v with
      | string name => cases h; exact .typeName name
      | list xs =>
          obtain ⟨names, hnames, rfl⟩ := Option.map_eq_some_iff.1 h
          rw [Json.strings?_eq_some_iff.1 hnames]
          exact .typeNames names
      | null | bool _ | number _ | object _ => cases h
  | text =>
      cases v with
      | string s => cases h; exact .text _
      | null | bool _ | number _ | list _ | object _ => cases h
  | texts =>
      rw [Json.strings?_eq_some_iff.1 h]
      exact .texts a
  | values =>
      cases v with
      | list xs => cases h; exact .values _
      | null | bool _ | number _ | string _ | object _ => cases h
  | truth =>
      cases v with
      | bool b => cases h; exact .truth _
      | null | number _ | string _ | list _ | object _ => cases h
  | number =>
      cases v with
      | number n => cases h; exact .number _
      | null | bool _ | string _ | list _ | object _ => cases h
  | length =>
      cases v with
      | number n =>
          cases n with
          | int i =>
              cases i with
              | ofNat n => cases h; exact .length _
              | negSucc _ => cases h
          | float _ => cases h
      | null | bool _ | string _ | list _ | object _ => cases h
  | given =>
      cases v with
      | null => cases h
      | bool _ | number _ | string _ | list _ | object _ => cases h; exact .given nofun
  | slot =>
      cases v with
      | null => cases h
      | bool _ | number _ | string _ | list _ | object _ => cases h; exact .slot nofun
  | slots =>
      cases v with
      | list xs =>
          cases h
          rw [Schema.ofItems_eq_map]
          exact .slots xs
      | null | bool _ | number _ | string _ | object _ => cases h
  | namedSlots =>
      cases v with
      | object ms =>
          cases h
          rw [Schema.ofNamed_eq_map]
          exact .namedSlots ms
      | null | bool _ | number _ | string _ | list _ => cases h

theorem read_of_says {shape : Shape} {v : Json} {a : shape.Value} (h : shape.Says v a) :
    shape.read v = some a := by
  cases h with
  | typeName _ | text _ | values _ | truth _ | number _ | length _ => rfl
  | typeNames names =>
      exact Option.map_eq_some_iff.2 ⟨names, Json.strings?_eq_some_iff.2 rfl, rfl⟩
  | texts ss => exact Json.strings?_eq_some_iff.2 rfl
  | given hv =>
      cases v with
      | null => exact absurd rfl hv
      | bool _ | number _ | string _ | list _ | object _ => rfl
  | slot hv =>
      cases v with
      | null => exact absurd rfl hv
      | bool _ | number _ | string _ | list _ | object _ => rfl
  | slots xs => exact congrArg some (Schema.ofItems_eq_map xs)
  | namedSlots ms => exact congrArg some (Schema.ofNamed_eq_map ms)

/-- **What is read of a value is what it says**, and nothing else. -/
theorem read_eq_some_iff {shape : Shape} {v : Json} {a : shape.Value} :
    shape.read v = some a ↔ shape.Says v a :=
  ⟨says_of_read, read_of_says⟩

end Shape

/-- **A field is what the value under its keyword says.** -/
theorem Schema.field_eq_some_iff {ms : List (String × Json)} {k : Keyword} {a : k.shape.Value} :
    (Schema.ofJson (.object ms)).field k = some a ↔
      ∃ w, get? ms k.key = some w ∧ k.shape.Says w a := by
  rw [Schema.field_ofJson, Option.bind_eq_some_iff]
  simp only [Shape.read_eq_some_iff]

end EndpointBindings
