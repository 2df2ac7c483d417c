import EndpointBindings.Node.Basic
import EndpointBindings.TypeScript.Basic

/-!
# Validators

A node is emitted as an expression that builds its validator.  The node's marks come last, in this
order: null is allowed, the description, and that the value may be missing.

Members of `allOf` are intersected and members of `oneOf` are joined, both from the left, each
member with its own marks inside.  A reference to a component that is declared in the same source is
emitted lazily under the component's name; a reference to anything else accepts any value.

Below `maxEmitDepth` levels of nesting nothing is emitted but that any value is accepted, under the
node's own marks.
-/

namespace EndpointBindings

open TypeScript

/-- The deepest level that is emitted. -/
def maxEmitDepth : Nat := 64

/-- The name under which a component's validator is declared. -/
def schemaIdent (name : String) : String := sanitize name ++ "Schema"

/-- The validator that accepts any value. -/
def unknown : String := "z.unknown()"

/-- A reference: lazy when the component is declared. -/
def emitRef (known : List String) (target : String) : String :=
  let name := refName target
  if known.contains name then "z.lazy(() => " ++ schemaIdent name ++ ")" else unknown

/-- A call with a value, when there is one. -/
def callWith {α : Type} (method : String) (write : α → String) : Option α → String
  | none => ""
  | some a => "." ++ method ++ "(" ++ write a ++ ")"

/-- A string: its allowed texts, or a format that has its own check, or bounds on its length. -/
def StringRules.emit (r : StringRules) : String :=
  if !r.enumValues.isEmpty then
    "z.enum([" ++ Text.join ", " (r.enumValues.map literal) ++ "])"
  else
    match r.format with
    | some "date-time" => "z.string().datetime()"
    | some "email" => "z.string().email()"
    | _ =>
      "z.string()" ++ callWith "min" (intText ∘ Int.ofNat) r.minLength
        ++ callWith "max" (intText ∘ Int.ofNat) r.maxLength

/-- A number and its bounds. -/
def NumberRules.emit (r : NumberRules) : String :=
  "z.number()" ++ callWith "min" Number.text r.minimum ++ callWith "max" Number.text r.maximum

/-- Combine expressions from the left; without any, any value is accepted. -/
def combine (f : String → String → String) : List String → String
  | [] => unknown
  | e :: es => es.foldl f e

/-- Values that both accept. -/
def intersection (a b : String) : String := "z.intersection(" ++ a ++ ", " ++ b ++ ")"

/-- Values that one of two accepts. -/
def union (a b : String) : String := a ++ ".or(" ++ b ++ ")"

/-- An object of fields that are emitted already. -/
def emitFields : List Step → String
  | [] => "z.object(\x7b\x7d)"
  | fields => layOut [.block "z.object(\x7b" "\x7d)" fields]

mutual

/-- The validator of a node at a depth. -/
def Node.emitAt (known : List String) (depth : Nat) (required : Bool) : Node → String
  | ⟨kind, nullable, description⟩ =>
    (if maxEmitDepth < depth then unknown else kind.emitAt known depth)
      ++ (if nullable then ".nullable()" else "")
      ++ callWith "describe" literal description
      ++ (if required then "" else ".optional()")

def Kind.emitAt (known : List String) (depth : Nat) : Kind → String
  | .ref target => emitRef known target
  | .allOf members => combine intersection (emitMembers known (depth + 1) members)
  | .oneOf members => combine union (emitMembers known (depth + 1) members)
  | .nullable inner => inner.emitAt known (depth + 1) true ++ ".nullable()"
  | .string rules => rules.emit
  | .number rules => rules.emit
  | .boolean => "z.boolean()"
  | .null => "z.null()"
  | .array none => "z.array(z.unknown())"
  | .array (some items) => "z.array(" ++ items.emitAt known (depth + 1) true ++ ")"
  | .object properties required =>
    emitFields (emitProperties known (depth + 1) required properties)
  | .any => unknown

def emitMembers (known : List String) (depth : Nat) : List Node → List String
  | [] => []
  | n :: ns => n.emitAt known depth true :: emitMembers known depth ns

def emitProperties (known : List String) (depth : Nat) (required : List String) :
    List (String × Node) → List Step
  | [] => []
  | (name, n) :: ps =>
    .line (propertyKey name ++ ": " ++ n.emitAt known depth (required.contains name) ++ ",")
      :: emitProperties known depth required ps

end

/-- The validator of a node. -/
def Node.emit (known : List String) (required : Bool) (n : Node) : String :=
  n.emitAt known 0 required

end EndpointBindings
