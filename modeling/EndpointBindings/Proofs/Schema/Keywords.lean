import EndpointBindings.Schema.Basic

/-!
# A schema read keyword by keyword

The reader goes through the members of an object from the back and writes each keyword as it meets
it.  What comes out is said here without the order: each field is the reading of the value that the
table holds under the field's own key (`Schema.ofMembers_eq`).  Everything that a later proof needs
about the reader follows from this one equation, and no later proof opens the reader itself.
-/

namespace EndpointBindings

open Ordered (get? get?_cons)

/-- The plain keywords, each read from the value at its own key. -/
def Facets.ofTable (ms : Ordered String Json) : Facets where
  types := (get? ms "type").bind TypeNames.ofJson?
  ref := (get? ms "$ref").bind Json.string?
  required := (get? ms "required").bind Json.strings?
  enumValues := (get? ms "enum").bind Json.list?
  format := (get? ms "format").bind Json.string?
  description := (get? ms "description").bind Json.string?
  nullable := (get? ms "nullable").bind Json.bool?
  minimum := (get? ms "minimum").bind Json.number?
  maximum := (get? ms "maximum").bind Json.number?
  minLength := (get? ms "minLength").bind Json.nat?
  maxLength := (get? ms "maxLength").bind Json.nat?
  default := (get? ms "default").bind Json.nonNull?

/-- One step of the reader is one more entry of the table. -/
theorem Facets.read_ofTable (ms : Ordered String Json) (key : String) (v : Json) :
    (ofTable ms).read key v = ofTable ((key, v) :: ms) := by
  unfold Facets.read
  split
  -- the last row is the one for a key that is none of the twelve
  case h_13 h₁ h₂ h₃ h₄ h₅ h₆ h₇ h₈ h₉ h₁₀ h₁₁ h₁₂ =>
      simp only [ofTable, get?_cons]
      rw [if_neg h₁, if_neg h₂, if_neg h₃, if_neg h₄, if_neg h₅, if_neg h₆, if_neg h₇, if_neg h₈,
        if_neg h₉, if_neg h₁₀, if_neg h₁₁, if_neg h₁₂]
  -- in the others the key is a literal, and the look-ups compute
  all_goals rfl

namespace Schema

/-- The reader's whole meaning: one look-up for each field. -/
theorem ofMembers_eq (ms : List (String × Json)) :
    ofMembers ms =
      { facets := .ofTable ms
        properties := (get? ms "properties").bind namedSchemas?
        items := (get? ms "items").bind slot?
        allOf := (get? ms "allOf").bind listed?
        oneOf := (get? ms "oneOf").bind listed?
        anyOf := (get? ms "anyOf").bind listed? } := by
  induction ms with
  | nil => rfl
  | cons e ms ih =>
      obtain ⟨key, v⟩ := e
      unfold ofMembers
      split
      -- the last row is the one for plain keywords: the key is none of the five above
      case h_6 h₁ h₂ h₃ h₄ h₅ =>
          simp only [ih, Facets.read_ofTable, get?_cons]
          rw [if_neg h₁, if_neg h₂, if_neg h₃, if_neg h₄, if_neg h₅]
      all_goals
          rw [ih]
          rfl

theorem ofItems_eq_map (xs : List Json) : ofItems xs = xs.map ofJson := by
  induction xs with
  | nil => rfl
  | cons x xs ih => rw [ofItems, ih, List.map_cons]

theorem ofNamed_eq_map (ms : List (String × Json)) :
    ofNamed ms = Ordered.mapValues ofJson ms := by
  induction ms with
  | nil => rfl
  | cons e ms ih =>
      obtain ⟨name, v⟩ := e
      rw [ofNamed, ih]
      rfl

end Schema

end EndpointBindings
