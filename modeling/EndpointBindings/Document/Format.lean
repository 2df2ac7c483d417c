import EndpointBindings.Failure
import EndpointBindings.Json.Reader
import EndpointBindings.Yaml.Resolve

/-!
# Documents from text

A document is written in JSON or in YAML, and both give the same kind of tree.  Which of the two a
file holds is told from the ending of its name.
-/

namespace EndpointBindings.Yaml

/-! ## The tree of a YAML value

A YAML value becomes the same kind of tree as a JSON text gives.  Tags are dropped, a number that is
not finite becomes null, and a key becomes its text: `200` and `'200'` meet in one key, which then
has the position of the first and the value of the last.

Only a key that is a sequence, a mapping or a tagged value has no text.  The first such key fails,
in the order of the document, a key coming before its own value.
-/

/-- The tree of a number. -/
def Number.toJson : Number → Json
  | .int i => .number (.int i)
  | .finite x => .number (.float x)
  | .infinite _ => .null
  | .nan => .null

/-- The text of a key. -/
def keyText : Value → Except Failure String
  | .string s => .ok s
  | .number n => .ok n.text
  | .bool b => .ok (if b then "true" else "false")
  | .null => .ok "null"
  | v => .error (.unsupportedKey v.shown)

mutual

/-- The tree of a value. -/
def Value.toJson : Value → Except Failure Json
  | .null => .ok .null
  | .bool b => .ok (.bool b)
  | .number n => .ok n.toJson
  | .string s => .ok (.string s)
  | .sequence xs => do return .list (← itemsToJson xs)
  | .mapping es => do return .object (Ordered.ofWrites (← entriesToJson es))
  | .tagged _ v => v.toJson

def itemsToJson : List Value → Except Failure (List Json)
  | [] => .ok []
  | x :: xs => do
    let y ← x.toJson
    return y :: (← itemsToJson xs)

/-- The entries with their keys as texts, in the order of the document. -/
def entriesToJson : List (Value × Value) → Except Failure (List (String × Json))
  | [] => .ok []
  | (k, v) :: es => do
    let key ← keyText k
    let value ← v.toJson
    return (key, value) :: (← entriesToJson es)

end

end EndpointBindings.Yaml

namespace EndpointBindings

/-! ## Formats -/

/-- The language a document is written in. -/
inductive Format where
  | json
  | yaml
deriving DecidableEq, Repr

/-- The document that a text is. -/
def readDocument : Format → String → Except Failure Json
  | .json, text =>
    match Json.read? text with
    | some v => .ok v
    | none => .error .malformedJson
  | .yaml, text =>
    match Yaml.read? text with
    | some v => v.toJson
    | none => .error .malformedYaml

end EndpointBindings
