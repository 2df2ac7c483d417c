import EndpointBindings.Ordered
import EndpointBindings.Yaml.Cursor

/-!
# Nodes

The grammar over tokens.  A node is a scalar, a sequence, a mapping or an alias, and all but an
alias may carry an anchor and a tag.  Where the grammar allows a node to be left out, an empty plain
scalar stands for it.

An alias is kept as the number of the anchor that it names at its place.  Anchors are numbered by
how many names there are when they are set, so that a name set again can share its number with
another name set after it; a number means the last node that carries it.  A node may hold aliases
of its own anchor.

A text is one document, or none.
-/

namespace EndpointBindings.Yaml

/-- What is written before a node's content. -/
structure Marks where
  anchor : Option Nat := none
  tag : Option String := none
deriving Inhabited

/-- A node of a document. -/
inductive Node where
  | scalar (marks : Marks) (text : String) (isPlain : Bool)
  | sequence (marks : Marks) (items : List Node)
  | mapping (marks : Marks) (entries : List (Node × Node))
  | alias (number : Nat)
deriving Inhabited

namespace Node

/-- What stands for a node that is left out. -/
def empty (marks : Marks := {}) : Node := .scalar marks "" true

/-- What is known while nodes are read: the tokens left and the anchors set so far. -/
structure Source where
  tokens : List Token
  anchors : Ordered String Nat := []

namespace Source

/-- Leave out the next token. -/
def drop (s : Source) : Source := { s with tokens := s.tokens.drop 1 }

/-- The next token. -/
def next? (s : Source) : Option Token := s.tokens.head?

/-- Whether the next token is one of the given ones; the end of the text is none of them. -/
def nextIn (s : Source) (ts : List Token) : Bool := s.next?.any (ts.contains ·)

/-- Set an anchor and give its number. -/
def setAnchor (s : Source) (name : String) : Nat × Source :=
  let number := s.anchors.length
  (number, { s with anchors := Ordered.put s.anchors name number })

end Source

/-- The tag that a handle and a suffix write; an empty handle leaves the suffix as it is. -/
def resolveTag (handles : Ordered String String) (handle suffix : String) : Option String :=
  if handle = "" then some suffix else (Ordered.get? handles handle).map (· ++ suffix)

/-- The names before a node's content: an anchor and a tag in either order. -/
def readNames (s : Source) : Option String × Option (String × String) × Source :=
  match s.tokens with
  | .anchor a :: .tag h x :: rest => (some a, some (h, x), { s with tokens := rest })
  | .tag h x :: .anchor a :: rest => (some a, some (h, x), { s with tokens := rest })
  | .anchor a :: rest => (some a, none, { s with tokens := rest })
  | .tag h x :: rest => (none, some (h, x), { s with tokens := rest })
  | _ => (none, none, s)

/-- The marks of a node; none when its tag has an unknown handle. -/
def readMarks (handles : Ordered String String) (s : Source) : Option (Marks × Source) := do
  let (anchor, tag, s) := readNames s
  let tag ← match tag with
    | none => some none
    | some (handle, suffix) => (resolveTag handles handle suffix).map some
  match anchor with
  | none => return ({ tag }, s)
  | some name =>
    let (number, s) := s.setAnchor name
    return ({ anchor := some number, tag }, s)

mutual

/-- A node.  In a block it may be a block collection, and where `indentless` also a sequence that
is not indented. -/
def read (handles : Ordered String String) (fuel : Nat) (inBlock indentless : Bool) (s : Source) :
    Option (Node × Source) :=
  match fuel with
  | 0 => none
  | fuel + 1 =>
    match s.tokens with
    | .alias name :: _ => (Ordered.get? s.anchors name).map fun n => (.alias n, s.drop)
    | _ => do
      let (marks, s) ← readMarks handles s
      match s.next? with
      | some (.scalar text isPlain) =>
        let marks := if marks.tag = some "!" then { marks with tag := none } else marks
        return (.scalar marks text isPlain, s.drop)
      | some .flowSequenceStart =>
        let (items, s) ← readFlowItems handles fuel true s.drop
        return (.sequence marks items, s)
      | some .flowMappingStart =>
        let (entries, s) ← readFlowEntries handles fuel true s.drop
        return (.mapping marks entries, s)
      | next =>
        if indentless && next = some .blockEntry then
          let (items, s) ← readIndentless handles fuel s
          return (.sequence marks items, s)
        else if inBlock && next = some .blockSequenceStart then
          let (items, s) ← readBlockItems handles fuel s.drop
          return (.sequence marks items, s)
        else if inBlock && next = some .blockMappingStart then
          let (entries, s) ← readBlockEntries handles fuel s.drop
          return (.mapping marks entries, s)
        else if marks.anchor.isSome || marks.tag.isSome then return (empty marks, s)
        else none

/-- A node unless one of the given tokens follows. -/
def readUnless (handles : Ordered String String) (fuel : Nat) (inBlock indentless : Bool)
    (ends : List Token) (s : Source) : Option (Node × Source) :=
  match fuel with
  | 0 => none
  | fuel + 1 =>
    if s.nextIn ends then some (empty, s) else read handles fuel inBlock indentless s

/-- The items of a block sequence and its end. -/
def readBlockItems (handles : Ordered String String) (fuel : Nat) (s : Source) :
    Option (List Node × Source) :=
  match fuel with
  | 0 => none
  | fuel + 1 =>
    match s.next? with
    | some .blockEntry => do
      let (item, s) ← readUnless handles fuel true false [.blockEntry, .blockEnd] s.drop
      let (items, s) ← readBlockItems handles fuel s
      return (item :: items, s)
    | some .blockEnd => some ([], s.drop)
    | _ => none

/-- The items of a sequence that is not indented; it ends before anything else. -/
def readIndentless (handles : Ordered String String) (fuel : Nat) (s : Source) :
    Option (List Node × Source) :=
  match fuel with
  | 0 => none
  | fuel + 1 =>
    match s.next? with
    | some .blockEntry => do
      let (item, s) ←
        readUnless handles fuel true false [.blockEntry, .key, .value, .blockEnd] s.drop
      let (items, s) ← readIndentless handles fuel s
      return (item :: items, s)
    | _ => some ([], s)

/-- The entries of a block mapping and its end.  A key and a value may each be left out. -/
def readBlockEntries (handles : Ordered String String) (fuel : Nat) (s : Source) :
    Option (List (Node × Node) × Source) :=
  match fuel with
  | 0 => none
  | fuel + 1 =>
    let ends : List Token := [.key, .value, .blockEnd]
    match s.next? with
    | some .key => do
      let (k, s) ← readUnless handles fuel true true ends s.drop
      let (v, s) ←
        if s.next? = some .value then readUnless handles fuel true true ends s.drop
        else some (empty, s)
      let (entries, s) ← readBlockEntries handles fuel s
      return ((k, v) :: entries, s)
    | some .blockEnd => some ([], s.drop)
    | _ => none

/-- The items of a sequence in brackets and its end; a key among them makes a mapping of one entry.
A key that is left out swallows the token that follows. -/
def readFlowItems (handles : Ordered String String) (fuel : Nat) (first : Bool) (s : Source) :
    Option (List Node × Source) :=
  match fuel with
  | 0 => none
  | fuel + 1 =>
    if s.next? = some .flowSequenceEnd then some ([], s.drop)
    else if !first && s.next? ≠ some .flowEntry then none
    else
      let s := if first then s else s.drop
      match s.next? with
      | some .flowSequenceEnd => some ([], s.drop)
      | some .key => do
        let s := s.drop
        let (k, s) ←
          if s.nextIn [.value, .flowEntry, .flowSequenceEnd] then some (empty, s.drop)
          else read handles fuel false false s
        let (v, s) ←
          if s.next? = some .value then
            readUnless handles fuel false false [.flowEntry, .flowSequenceEnd] s.drop
          else some (empty, s)
        let (items, s) ← readFlowItems handles fuel false s
        return (.mapping {} [(k, v)] :: items, s)
      | _ => do
        let (item, s) ← read handles fuel false false s
        let (items, s) ← readFlowItems handles fuel false s
        return (item :: items, s)

/-- The entries of a mapping in braces and its end.  A node without a colon is a key alone. -/
def readFlowEntries (handles : Ordered String String) (fuel : Nat) (first : Bool) (s : Source) :
    Option (List (Node × Node) × Source) :=
  match fuel with
  | 0 => none
  | fuel + 1 =>
    if s.next? = some .flowMappingEnd then some ([], s.drop)
    else if !first && s.next? ≠ some .flowEntry then none
    else
      let s := if first then s else s.drop
      match s.next? with
      | some .flowMappingEnd => some ([], s.drop)
      | some .key => do
        let (k, s) ←
          readUnless handles fuel false false [.value, .flowEntry, .flowMappingEnd] s.drop
        let (v, s) ←
          if s.next? = some .value then
            readUnless handles fuel false false [.flowEntry, .flowMappingEnd] s.drop
          else some (empty, s)
        let (entries, s) ← readFlowEntries handles fuel false s
        return ((k, v) :: entries, s)
      | _ => do
        let (k, s) ← read handles fuel false false s
        let (entries, s) ← readFlowEntries handles fuel false s
        return ((k, empty) :: entries, s)

end

/-! ## Documents -/

/-- The directives before a document: the handles they define, and the tokens after them.  A
repeated directive and a version other than 1.1 and 1.2 are refused. -/
def readDirectives (versionSeen : Bool) (handles : Ordered String String) :
    List Token → Option (Ordered String String × List Token)
  | .versionDirective major minor :: rest =>
    if versionSeen || major ≠ 1 || (minor ≠ 1 && minor ≠ 2) then none
    else readDirectives true handles rest
  | .tagDirective handle expansion :: rest =>
    if Ordered.has handles handle then none
    else readDirectives versionSeen (Ordered.put handles handle expansion) rest
  | tokens => some (handles, tokens)

/-- The handles that every document has, where it does not define them itself. -/
def withDefaults (handles : Ordered String String) : Ordered String String :=
  handles ++ [("!", "!"), ("!!", "tag:yaml.org,2002:")]

/-- Whether a token belongs to the frame of documents and not to a node. -/
def isFrame : Token → Bool
  | .versionDirective .. | .tagDirective .. | .documentStart | .documentEnd => true
  | _ => false

/-- The node of a text of one document; `some none` for a text without any. -/
def ofTokens? (tokens : List Token) : Option (Option Node) :=
  let fuel := 4 * tokens.length + 8
  let finish (n : Node) (rest : List Token) : Option (Option Node) :=
    if (rest.dropWhile (· = .documentEnd)).isEmpty then some (some n) else none
  match tokens with
  | [] => some none
  | t :: _ =>
    if isFrame t && t ≠ .documentEnd then do
      let (handles, rest) ← readDirectives false [] tokens
      match rest with
      | .documentStart :: rest =>
        if rest.head?.all isFrame then finish empty rest
        else
          let (n, s) ← read (withDefaults handles) fuel true false { tokens := rest }
          finish n s.tokens
      | _ => none
    else do
      let (n, s) ← read (withDefaults []) fuel true false { tokens }
      finish n s.tokens

end Node

end EndpointBindings.Yaml
