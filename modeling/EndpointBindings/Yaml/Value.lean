import EndpointBindings.Json.Basic
import EndpointBindings.Text.Escape
import EndpointBindings.Text.Split

/-!
# Values of a YAML document

What a YAML document denotes: nulls, booleans, numbers, strings, sequences, mappings and tagged
values.  Unlike the members of an object, the keys of a mapping are values of any kind.

Two keys of one mapping must differ.  Numbers are compared as numbers of their kind, so that `1` and
`1.0` differ while `0.0` and `-0.0` do not; mappings are compared without regard to order.
-/

namespace EndpointBindings.Yaml

/-- A number: an integer, a finite binary number, an infinity or not a number. -/
inductive Number where
  | int (value : Int)
  | finite (value : Decimal.Binary64)
  | infinite (negative : Bool)
  | nan
deriving Inhabited

/-- What a node denotes. -/
inductive Value where
  | null
  | bool (value : Bool)
  | number (value : Number)
  | string (value : String)
  | sequence (items : List Value)
  | mapping (entries : List (Value × Value))
  | tagged (tag : String) (value : Value)
deriving Inhabited

/-! ## Equality of keys -/

/-- Equality of numbers; the two zeros are one, and what is not a number equals itself. -/
def Number.same : Number → Number → Bool
  | .int i, .int j => i = j
  | .finite x, .finite y => x = y || (x.mantissa = 0 && y.mantissa = 0)
  | .infinite a, .infinite b => a = b
  | .nan, .nan => true
  | _, _ => false

/-- A tag without its leading mark, unless it is the mark alone. -/
def bareTag (tag : String) : String :=
  match tag.toList with
  | '!' :: c :: cs => String.ofList (c :: cs)
  | _ => tag

mutual

/-- Equality of values. -/
def Value.same : Value → Value → Bool
  | .null, .null => true
  | .bool a, .bool b => a = b
  | .number m, .number n => m.same n
  | .string s, .string t => s = t
  | .sequence xs, .sequence ys => sameItems xs ys
  | .mapping xs, .mapping ys => xs.length = ys.length && sameEntries xs ys
  | .tagged s x, .tagged t y => bareTag s = bareTag t && Value.same x y
  | _, _ => false

def sameItems : List Value → List Value → Bool
  | [], [] => true
  | x :: xs, y :: ys => Value.same x y && sameItems xs ys
  | _, _ => false

/-- Every entry of the first mapping has an equal one in the second. -/
def sameEntries : List (Value × Value) → List (Value × Value) → Bool
  | [], _ => true
  | (k, v) :: xs, ys =>
    ys.any (fun (k', v') => Value.same k k' && Value.same v v') && sameEntries xs ys

end

/-! ## Texts -/

/-- The text of a number as a key.  A positive exponent has no sign. -/
def Number.text : Number → String
  | .int i => intText i
  | .finite x => x.text .bare
  | .infinite false => ".inf"
  | .infinite true => "-.inf"
  | .nan => ".nan"

mutual

/-- A value as messages show it. -/
def Value.shown : Value → String
  | .null => "Null"
  | .bool b => "Bool(" ++ (if b then "true" else "false") ++ ")"
  | .number n => "Number(" ++ n.text ++ ")"
  | .string s => "String(" ++ Text.shown s ++ ")"
  | .sequence xs => "Sequence [" ++ Text.join ", " (shownItems xs) ++ "]"
  | .mapping es => "Mapping \x7b" ++ Text.join ", " (shownEntries es) ++ "\x7d"
  | .tagged tag v =>
    "TaggedValue \x7b tag: !" ++ bareTag tag ++ ", value: " ++ v.shown ++ " \x7d"

def shownItems : List Value → List String
  | [] => []
  | x :: xs => x.shown :: shownItems xs

/-- Entries of a mapping; a key that is a boolean, a number or a string shows without its kind. -/
def shownEntries : List (Value × Value) → List String
  | [] => []
  | (k, v) :: es =>
    let key := match k with
      | .bool b => if b then "true" else "false"
      | .number n => n.text
      | .string s => Text.shown s
      | k => k.shown
    (key ++ ": " ++ v.shown) :: shownEntries es

end

end EndpointBindings.Yaml
