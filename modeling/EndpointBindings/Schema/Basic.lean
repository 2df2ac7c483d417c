import EndpointBindings.Json.Basic

/-!
# Schemas as documents write them

A schema is read keyword by keyword, and each keyword is kept or absent on its own.  The keywords
with plain values are the schema's `Facets`; those that hold schemas again are fields of `Schema`.
Absent and empty are different: `properties` written as an empty object is present.
-/

namespace EndpointBindings

/-- The types a schema allows: one name or a list of names. -/
inductive TypeNames where
  | single (name : String)
  | several (names : List String)
deriving DecidableEq, Repr

/-- The keywords whose values hold no schema. -/
structure Facets where
  types : Option TypeNames := none
  ref : Option String := none
  required : Option (List String) := none
  enumValues : Option (List Json) := none
  format : Option String := none
  description : Option String := none
  nullable : Option Bool := none
  minimum : Option Number := none
  maximum : Option Number := none
  minLength : Option Nat := none
  maxLength : Option Nat := none
  default : Option Json := none
deriving Inhabited

/-- A schema: its plain keywords, and those that hold schemas. -/
structure Schema where
  facets : Facets := {}
  properties : Option (List (String × Schema)) := none
  items : Option Schema := none
  allOf : Option (List Schema) := none
  oneOf : Option (List Schema) := none
  anyOf : Option (List Schema) := none
deriving Inhabited

namespace Schema

/-- The members of `allOf`, when it is present and has some. -/
def members (s : Schema) : List Schema := s.allOf.getD []

/-- Whether the schema is composed of others. -/
def isComposed (s : Schema) : Bool := !s.members.isEmpty

end Schema

/-! ## Reading

A schema slot is read whatever it holds.  Anything but an object is an empty schema.  In an object
each keyword is read from its own value alone, and a value of the wrong shape leaves the keyword
absent without touching the others, at every depth; keys that are no keywords are passed over.

* `type` is a string or a list of strings, `required` a list of strings;
* lengths are integers that are not negative, and bounds are any numbers;
* `items` and `default` are absent when they are null;
* a schema inside `properties`, `items` or a list of schemas is again a slot.
-/

/-- The value of `type`. -/
def TypeNames.ofJson? (v : Json) : Option TypeNames :=
  match v with
  | .string name => some (.single name)
  | v => v.strings?.map .several

/-- A value that is absent when it is null. -/
def Json.nonNull? : Json → Option Json
  | .null => none
  | v => some v

/-- Read one keyword with a plain value. -/
def Facets.read (f : Facets) (key : String) (v : Json) : Facets :=
  match key with
  | "type" => { f with types := TypeNames.ofJson? v }
  | "$ref" => { f with ref := v.string? }
  | "required" => { f with required := v.strings? }
  | "enum" => { f with enumValues := v.list? }
  | "format" => { f with format := v.string? }
  | "description" => { f with description := v.string? }
  | "nullable" => { f with nullable := v.bool? }
  | "minimum" => { f with minimum := v.number? }
  | "maximum" => { f with maximum := v.number? }
  | "minLength" => { f with minLength := v.nat? }
  | "maxLength" => { f with maxLength := v.nat? }
  | "default" => { f with default := v.nonNull? }
  | _ => f

namespace Schema

mutual

/-- The schema in a slot. -/
def ofJson : Json → Schema
  | .object ms => ofMembers ms
  | _ => {}

/-- The schema of an object's members. -/
def ofMembers : List (String × Json) → Schema
  | [] => {}
  | (key, v) :: ms =>
    let rest := ofMembers ms
    match key with
    | "properties" => { rest with properties := namedSchemas? v }
    | "items" => { rest with items := slot? v }
    | "allOf" => { rest with allOf := listed? v }
    | "oneOf" => { rest with oneOf := listed? v }
    | "anyOf" => { rest with anyOf := listed? v }
    | key => { rest with facets := rest.facets.read key v }

/-- A slot that is absent when it is null. -/
def slot? : Json → Option Schema
  | .null => none
  | .object ms => some (ofMembers ms)
  | _ => some {}

/-- A list of slots. -/
def listed? : Json → Option (List Schema)
  | .list xs => some (ofItems xs)
  | _ => none

/-- Slots under names. -/
def namedSchemas? : Json → Option (List (String × Schema))
  | .object ms => some (ofNamed ms)
  | _ => none

def ofItems : List Json → List Schema
  | [] => []
  | x :: xs => ofJson x :: ofItems xs

def ofNamed : List (String × Json) → List (String × Schema)
  | [] => []
  | (name, v) :: ms => (name, ofJson v) :: ofNamed ms

end

end Schema

/-! ## Writing

A schema is written as an object of its present keywords, in one fixed order.  Absent keywords are
left out, so that reading the object gives the schema back.
-/

def TypeNames.toJson : TypeNames → Json
  | .single name => .string name
  | .several names => .ofStrings names

/-- A member for a keyword that is present. -/
def memberOf {α : Type} (key : String) (write : α → Json) : Option α → List (String × Json)
  | none => []
  | some a => [(key, write a)]

namespace Schema

mutual

/-- The object of a schema. -/
def toJson : Schema → Json
  | ⟨f, properties, items, allOf, oneOf, anyOf⟩ => .object (
      memberOf "type" TypeNames.toJson f.types
      ++ memberOf "$ref" .string f.ref
      ++ propertiesMember properties
      ++ memberOf "required" Json.ofStrings f.required
      ++ itemsMember items
      ++ memberOf "enum" .list f.enumValues
      ++ listMember "allOf" allOf
      ++ listMember "oneOf" oneOf
      ++ listMember "anyOf" anyOf
      ++ memberOf "format" .string f.format
      ++ memberOf "description" .string f.description
      ++ memberOf "nullable" .bool f.nullable
      ++ memberOf "minimum" .number f.minimum
      ++ memberOf "maximum" .number f.maximum
      ++ memberOf "minLength" Json.ofNat f.minLength
      ++ memberOf "maxLength" Json.ofNat f.maxLength
      ++ memberOf "default" id f.default)

def propertiesMember : Option (List (String × Schema)) → List (String × Json)
  | none => []
  | some ps => [("properties", .object (namedToJson ps))]

def itemsMember : Option Schema → List (String × Json)
  | none => []
  | some s => [("items", s.toJson)]

def listMember (key : String) : Option (List Schema) → List (String × Json)
  | none => []
  | some ss => [(key, .list (listToJson ss))]

def namedToJson : List (String × Schema) → List (String × Json)
  | [] => []
  | (name, s) :: ss => (name, s.toJson) :: namedToJson ss

def listToJson : List Schema → List Json
  | [] => []
  | s :: ss => s.toJson :: listToJson ss

end

end Schema

end EndpointBindings
