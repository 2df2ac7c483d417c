import EndpointBindings.Decimal.Shortest
import EndpointBindings.Ordered

/-!
# The document tree

A document is a tree of nulls, booleans, numbers, strings, lists and objects.  An object is an
ordered table: the order of its keys is part of the document and reaches the generated source.

A number is an integer or a binary64 number, and stays what it was written as: `1` and `1.0` are
different numbers with different texts.
-/

namespace EndpointBindings

/-- A number of a document.  The readers make integers only of the range from `-2 ^ 63` up to,
but without, `2 ^ 64`. -/
inductive Number where
  | int (value : Int)
  | float (value : Decimal.Binary64)
deriving DecidableEq, Repr, Inhabited

/-- The decimal text of an integer. -/
def intText (i : Int) : String :=
  String.ofList ((if i < 0 then ['-'] else []) ++ Nat.toDigits 10 i.natAbs)

/-- The text of a number, as documents and generated source write it. -/
def Number.text : Number → String
  | .int i => intText i
  | .float x => x.text .signed

/-- A document, or a part of one. -/
inductive Json where
  | null
  | bool (value : Bool)
  | number (value : Number)
  | string (value : String)
  | list (items : List Json)
  | object (members : List (String × Json))
deriving Inhabited

namespace Json

/-- The members of an object. -/
def members? : Json → Option (Ordered String Json)
  | .object ms => some ms
  | _ => none

/-- The text of a string. -/
def string? : Json → Option String
  | .string s => some s
  | _ => none

/-- The items of a list. -/
def list? : Json → Option (List Json)
  | .list xs => some xs
  | _ => none

/-- The truth value of a boolean. -/
def bool? : Json → Option Bool
  | .bool b => some b
  | _ => none

/-- The value of a number. -/
def number? : Json → Option Number
  | .number n => some n
  | _ => none

/-- A length: a number written as an integer that is not negative. -/
def nat? : Json → Option Nat
  | .number (.int (.ofNat n)) => some n
  | _ => none

/-- A list whose items are all strings. -/
def strings? (v : Json) : Option (List String) := v.list? >>= (·.mapM string?)

/-- The value at a key, when the value is an object that has it. -/
def get? (v : Json) (key : String) : Option Json := v.members?.bind (Ordered.get? · key)

/-- A reference is an object with a key `$ref`, whatever stands beside it or is written there. -/
def isReference (v : Json) : Bool := (v.get? "$ref").isSome

/-- A list of strings as a tree. -/
def ofStrings (ss : List String) : Json := .list (ss.map .string)

/-- A number that is not negative. -/
def ofNat (n : Nat) : Json := .number (.int n)

/-- Write a value that may be absent; absent is null. -/
def orNull {α : Type} (write : α → Json) : Option α → Json
  | none => .null
  | some a => write a

/-! ## Measures

How deep a tree is, and which references it holds.  Together they bound how far a composition of
schemas can go into one another.
-/

mutual

/-- The length of the longest path down a tree. -/
def depth : Json → Nat
  | .list xs => depthOfItems xs + 1
  | .object ms => depthOfMembers ms + 1
  | _ => 0

def depthOfItems : List Json → Nat
  | [] => 0
  | x :: xs => max x.depth (depthOfItems xs)

def depthOfMembers : List (String × Json) → Nat
  | [] => 0
  | (_, v) :: ms => max v.depth (depthOfMembers ms)

end

mutual

/-- The texts that stand under `$ref` somewhere in a tree. -/
def references : Json → List String
  | .list xs => referencesOfItems xs
  | .object ms => referencesOfMembers ms
  | _ => []

def referencesOfItems : List Json → List String
  | [] => []
  | x :: xs => x.references ++ referencesOfItems xs

def referencesOfMembers : List (String × Json) → List String
  | [] => []
  | (key, v) :: ms =>
    let own := match v with
      | .string target => if key = "$ref" then [target] else []
      | _ => []
    own ++ v.references ++ referencesOfMembers ms

end

end Json

end EndpointBindings
