import EndpointBindings.Json.Printer
import EndpointBindings.Node.Basic
import EndpointBindings.Schema.Basic

/-!
# From schemas to nodes

A schema's kind is decided by the first of these that it has: a reference, members of `allOf`,
members of `oneOf` or else of `anyOf`, a type.  A list that is present but empty decides nothing.

A list of types loses `null` first.  One type that remains decides as if it stood alone; several are
taken for strings; when none remains the schema describes null if the list named it, and else any
value.  A list that named null beside others marks the kind with `Kind.nullable`.

Without a type, properties make an object, and a schema without any of this describes any value.
-/

namespace EndpointBindings

/-- The rules of a string that a schema's plain keywords give.  Allowed values that are no strings
are taken by their text. -/
def Facets.stringRules (f : Facets) : StringRules where
  enumValues := (f.enumValues.getD []).map fun v =>
    match v with
    | .string s => s
    | v => v.compact
  format := f.format
  minLength := f.minLength
  maxLength := f.maxLength

/-- The rules of a number that a schema's plain keywords give. -/
def Facets.numberRules (f : Facets) (isInteger : Bool) : NumberRules where
  isInteger := isInteger
  minimum := f.minimum
  maximum := f.maximum

/-- The kind of one type, given the node of the items and the nodes of the properties. -/
def kindOfType (f : Facets) (items : Option Node) (properties : List (String × Node)) :
    String → Kind
  | "string" => .string f.stringRules
  | "number" => .number (f.numberRules false)
  | "integer" => .number (f.numberRules true)
  | "boolean" => .boolean
  | "null" => .null
  | "array" => .array items
  | "object" => .object properties (f.required.getD [])
  | _ => .any

/-- The kind of a list of types. -/
def kindOfTypes (f : Facets) (items : Option Node) (properties : List (String × Node))
    (names : List String) : Kind :=
  let hasNull := names.contains "null"
  let marked (k : Kind) : Kind := if hasNull then .nullable (.ofKind k) else k
  match names.filter (· ≠ "null") with
  | [] => if hasNull then .null else .any
  | [name] => marked (kindOfType f items properties name)
  | _ => marked (.string f.stringRules)

/-- The kind of a schema whose parts are nodes already. -/
def kindOfParts (f : Facets) (properties : List (String × Node)) (items : Option Node)
    (allOf oneOf anyOf : List Node) : Kind :=
  match f.ref with
  | some target => .ref target
  | none =>
    match allOf, oneOf, anyOf with
    | _ :: _, _, _ => .allOf allOf
    | [], _ :: _, _ => .oneOf oneOf
    | [], [], _ :: _ => .oneOf anyOf
    | [], [], [] =>
      match f.types with
      | some (.single name) => kindOfType f items properties name
      | some (.several names) => kindOfTypes f items properties names
      | none => if properties.isEmpty then .any else .object properties (f.required.getD [])

namespace Schema

mutual

/-- The node of a schema. -/
def toNode : Schema → Node
  | ⟨f, properties, items, allOf, oneOf, anyOf⟩ =>
    { kind := kindOfParts f (optionalNamedNodes properties) (optionalNode items)
        (optionalNodes allOf) (optionalNodes oneOf) (optionalNodes anyOf)
      nullable := f.nullable.getD false
      description := f.description }

def optionalNode : Option Schema → Option Node
  | none => none
  | some s => some s.toNode

def optionalNodes : Option (List Schema) → List Node
  | none => []
  | some ss => nodesOf ss

def optionalNamedNodes : Option (List (String × Schema)) → List (String × Node)
  | none => []
  | some ps => namedNodes ps

def nodesOf : List Schema → List Node
  | [] => []
  | s :: ss => s.toNode :: nodesOf ss

def namedNodes : List (String × Schema) → List (String × Node)
  | [] => []
  | (name, s) :: ps => (name, s.toNode) :: namedNodes ps

end

end Schema

end EndpointBindings
