import EndpointBindings.Json.Basic
import EndpointBindings.Json.Pointer
import EndpointBindings.Schema.Basic

/-!
# Composing a schema from others

A schema with members under `allOf` is composed: its members are merged into it one after the other.
A member that is a reference stands for the schema that the reference leads to, and keywords beside
the reference do not count.  Each member is composed itself before it is merged.

Properties of later members replace earlier ones in place; required names are strung together; type,
format and description are the first that are present.  All other keywords are the schema's own.

A reference that is being expanded already is passed over, and so is one that leads nowhere.  This
is what ends a composition in a document whose references run in circles: the references being
expanded are all different, and between two of them the recursion goes down into one schema.
-/

namespace EndpointBindings

namespace Schema

/-- The schema in the part of a document that a reference leads to. -/
def resolve? (root : Json) (reference : String) : Option Schema :=
  (root.follow? reference).map ofJson

/-- Properties with later ones written over them. -/
def mergeProperties (own member : Option (List (String × Schema))) :
    Option (List (String × Schema)) :=
  match member with
  | none => own
  | some ps => some (Ordered.putAll (own.getD []) ps)

/-- Required names with further ones after them. -/
def mergeRequired (own member : Option (List String)) : Option (List String) :=
  match member with
  | none => own
  | some names => some (own.getD [] ++ names)

/-- Merge one member, composed already, into a schema. -/
def merge (s member : Schema) : Schema :=
  { s with
    properties := mergeProperties s.properties member.properties
    facets := { s.facets with
      required := mergeRequired s.facets.required member.facets.required
      types := s.facets.types <|> member.facets.types
      format := s.facets.format <|> member.facets.format
      description := s.facets.description <|> member.facets.description } }

/-- Compose a schema with at most `fuel` calls inside one another; none when they do not suffice.
`expanding` holds the references being expanded, the latest first. -/
def composeWithin (root : Json) : (fuel : Nat) → (expanding : List String) → Schema → Option Schema
  | 0, _, _ => none
  | fuel + 1, expanding, s =>
    if !s.isComposed then some s
    else
      s.members.foldlM (fun merged member =>
        match member.facets.ref with
        | some reference =>
          if reference ∈ expanding then some merged
          else
            match resolve? root reference with
            | none => some merged
            | some target =>
              (composeWithin root fuel (reference :: expanding) target).map merged.merge
        | none => (composeWithin root fuel expanding member).map merged.merge)
        { s with allOf := none }

/-- A number of calls that always suffices: one more than there are references that could be
expanded inside one another, times the longest way down one schema. -/
def compositionBound (root : Json) (s : Schema) : Nat :=
  let own := s.toJson
  (root.references.length + own.references.length + 1) * (max root.depth own.depth + 1)

/-- The schema with its members merged into it.  A schema without members is left as it is. -/
def compose (root : Json) (s : Schema) : Schema :=
  if s.isComposed then (composeWithin root (compositionBound root s) [] s).getD s else s

end Schema

end EndpointBindings
