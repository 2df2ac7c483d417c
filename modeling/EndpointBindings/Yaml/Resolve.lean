import EndpointBindings.Yaml.Layout
import EndpointBindings.Yaml.Meaning
import EndpointBindings.Yaml.Node

/-!
# From nodes to values

An alias denotes what the node of its number denotes, read again at the place of the alias.  Two
limits keep that finite: collections nest at most `maxDepth` deep, which ends an alias inside its
own node, and aliases are followed at most a hundred times for each event of the document.

A node whose tag starts with a mark of its own becomes a tagged value.  Other tags fix the kind of a
scalar and say nothing about a collection.  Under a tagged mapping the keys' own tags are not read.
-/

namespace EndpointBindings.Yaml

/-- The deepest nesting of sequences and mappings. -/
def maxDepth : Nat := 128

namespace Node

mutual

/-- The number of events that write a node: a collection has a start and an end. -/
def events : Node → Nat
  | .scalar .. => 1
  | .alias _ => 1
  | .sequence _ items => eventsOfItems items + 2
  | .mapping _ entries => eventsOfEntries entries + 2

def eventsOfItems : List Node → Nat
  | [] => 0
  | n :: ns => n.events + eventsOfItems ns

def eventsOfEntries : List (Node × Node) → Nat
  | [] => 0
  | (k, v) :: es => k.events + v.events + eventsOfEntries es

end

/-- The marks before a node. -/
def marks : Node → Marks
  | .scalar m .. => m
  | .sequence m _ => m
  | .mapping m _ => m
  | .alias _ => {}

/-- A node under the number of its anchor. -/
def numbered (n : Node) : List (Nat × Node) :=
  match n.marks.anchor with
  | some number => [(number, n)]
  | none => []

mutual

/-- All nodes with anchors, in the order in which they start. -/
def anchored : Node → List (Nat × Node)
  | .scalar m text isPlain => numbered (.scalar m text isPlain)
  | .alias _ => []
  | .sequence m items => numbered (.sequence m items) ++ anchoredItems items
  | .mapping m entries => numbered (.mapping m entries) ++ anchoredEntries entries

def anchoredItems : List Node → List (Nat × Node)
  | [] => []
  | n :: ns => n.anchored ++ anchoredItems ns

def anchoredEntries : List (Node × Node) → List (Nat × Node)
  | [] => []
  | (k, v) :: es => k.anchored ++ v.anchored ++ anchoredEntries es

end

end Node

/-- What a whole document provides for reading its nodes. -/
structure Surroundings where
  anchors : Ordered Nat Node
  maxJumps : Nat

/-- The tag of a tagged value, when a node's tag makes one. -/
def ownTag? (tag : Option String) : Option String :=
  match tag.map String.toList with
  | some ('!' :: []) => some "!"
  | some ('!' :: rest) => some (String.ofList rest)
  | _ => none

/-- The value of a scalar whose own tag, if it has one, has been dealt with. -/
def scalarUnder (tagRead : Bool) (marks : Marks) (text : String) (isPlain : Bool) : Option Value :=
  scalarValue? (if tagRead then none else marks.tag) text isPlain

/-- Put a value under a tag, when there is one. -/
def underTag : Option String → Value → Value
  | none, v => v
  | some tag, v => .tagged tag v

/-- Read items one after the other, each with the number of aliases followed before it. -/
def readAll {α β : Type} (f : Nat → α → Option (β × Nat)) : Nat → List α → Option (List β × Nat)
  | jumps, [] => some ([], jumps)
  | jumps, x :: xs => do
    let (y, jumps) ← f jumps x
    let (ys, jumps) ← readAll f jumps xs
    return (y :: ys, jumps)

/-- Read the entries of a mapping, refusing a key that equals an earlier one. -/
def readEntries (f : Bool → Nat → Node → Option (Value × Nat)) (tagRead : Bool) :
    List Value → Nat → List (Node × Node) → Option (List (Value × Value) × Nat)
  | _, jumps, [] => some ([], jumps)
  | seen, jumps, (k, v) :: es => do
    let (k, jumps) ← f tagRead jumps k
    if seen.any (·.same k) then none
    let (v, jumps) ← f false jumps v
    let (es, jumps) ← readEntries f tagRead (k :: seen) jumps es
    return ((k, v) :: es, jumps)

/-- The value of a node and the number of aliases followed so far.  `depth` is how many more
collections may open; `tagRead` says that the node's tag has been dealt with outside. -/
def valueOf (env : Surroundings) :
    (depth : Nat) → (tagRead : Bool) → (jumps : Nat) → Node → Option (Value × Nat)
  | depth, tagRead, jumps, node => do
    let (node, tagRead, jumps) ← match node with
      | .alias number =>
        if jumps < env.maxJumps then
          (Ordered.get? env.anchors number).map fun n => (n, false, jumps + 1)
        else none
      | node => some (node, tagRead, jumps)
    let tag := if tagRead then none else ownTag? node.marks.tag
    let tagRead := tagRead || tag.isSome
    match node, depth with
    | .scalar marks text isPlain, _ =>
      return (underTag tag (← scalarUnder tagRead marks text isPlain), jumps)
    | .sequence _ items, depth + 1 =>
      let (xs, jumps) ← readAll (valueOf env depth false) jumps items
      return (underTag tag (.sequence xs), jumps)
    | .mapping _ entries, depth + 1 =>
      let (es, jumps) ← readEntries (valueOf env depth) tagRead [] jumps entries
      return (underTag tag (.mapping es), jumps)
    | _, _ => none

/-- The value of a document's node. -/
def Node.value? (n : Node) : Option Value :=
  let anchors := Ordered.ofWrites n.anchored
  (valueOf ⟨anchors, 100 * n.events⟩ maxDepth false 0 n).map (·.1)

/-- The value of a text; a text without a document denotes null. -/
def read? (text : String) : Option Value := do
  match ← Node.ofTokens? (← tokens? text) with
  | none => return .null
  | some n => n.value?

end EndpointBindings.Yaml
