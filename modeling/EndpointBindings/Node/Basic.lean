import EndpointBindings.Json.Basic

/-!
# Nodes: what a schema describes

A node says what kind of value a schema describes, and carries the two marks that any kind may have:
whether null is allowed beside it, and a description.  The kinds are closed.  Whatever a document
writes is one of them, so that everything built from nodes is defined by one case for each kind.
-/

namespace EndpointBindings

/-- The rules of a string. -/
structure StringRules where
  /-- The allowed texts; none when every text is allowed. -/
  enumValues : List String := []
  format : Option String := none
  minLength : Option Nat := none
  maxLength : Option Nat := none
deriving DecidableEq, Repr, Inhabited

/-- The rules of a number. -/
structure NumberRules where
  isInteger : Bool := false
  minimum : Option Number := none
  maximum : Option Number := none
deriving DecidableEq, Repr, Inhabited

mutual

/-- A kind with its marks. -/
structure Node where
  kind : Kind
  nullable : Bool := false
  description : Option String := none

/-- The kinds of values. -/
inductive Kind where
  /-- A pointer to a schema, as it is written. -/
  | ref (target : String)
  /-- Values that every member describes. -/
  | allOf (members : List Node)
  /-- Values that some member describes. -/
  | oneOf (members : List Node)
  /-- A list of types that names null beside others. -/
  | nullable (inner : Node)
  | string (rules : StringRules)
  | number (rules : NumberRules)
  | boolean
  | null
  | array (items : Option Node)
  | object (properties : List (String × Node)) (required : List String)
  /-- Any value at all. -/
  | any

end

namespace Node

/-- A kind without marks. -/
def ofKind (k : Kind) : Node := { kind := k }

instance : Inhabited Kind := ⟨.any⟩

instance : Inhabited Node := ⟨ofKind .any⟩

/-- The node that describes every value. -/
def any : Node := ofKind .any

/-- A reference. -/
def ref (target : String) : Node := ofKind (.ref target)

/-- An object with named properties. -/
def object (properties : List (String × Node)) (required : List String) : Node :=
  ofKind (.object properties required)

end Node

/-! ## References

The references that a node holds, at any depth, in the order in which they stand in it: members,
the inner node, items and property values from left to right.  They are added to a list that
already holds some; a reference that is there already is not added again.
-/

mutual

/-- Add the references of a node to a list, each once. -/
def Node.collectRefs (refs : List String) : Node → List String
  | ⟨kind, _, _⟩ => kind.collectRefs refs

def Kind.collectRefs (refs : List String) : Kind → List String
  | .ref target => if target ∈ refs then refs else refs ++ [target]
  | .allOf members => collectRefsOfAll refs members
  | .oneOf members => collectRefsOfAll refs members
  | .nullable inner => inner.collectRefs refs
  | .array (some items) => items.collectRefs refs
  | .object properties _ => collectRefsOfProperties refs properties
  | .string _ | .number _ | .boolean | .null | .array none | .any => refs

def collectRefsOfAll (refs : List String) : List Node → List String
  | [] => refs
  | n :: ns => collectRefsOfAll (n.collectRefs refs) ns

def collectRefsOfProperties (refs : List String) : List (String × Node) → List String
  | [] => refs
  | (_, n) :: ps => collectRefsOfProperties (n.collectRefs refs) ps

end

/-- The last segment of a pointer: the name of a component that it points to. -/
def refName (target : String) : String :=
  String.ofList ((target.toList.reverse.takeWhile (· ≠ '/')).reverse)

end EndpointBindings
