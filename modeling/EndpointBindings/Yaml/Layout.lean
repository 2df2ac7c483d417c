import EndpointBindings.Yaml.Block
import EndpointBindings.Yaml.Scalar
import EndpointBindings.Yaml.Tag

/-!
# From text to tokens

Outside brackets the structure is in the columns.  A stack of columns, one for each open block,
says which blocks a new line closes and whether it opens one.

A key need not be marked in front.  Where a node starts that may turn out to be a key, its place is
remembered; when a colon follows on the same line and not too far away, a key token is put in at
that place, and the token that opens a block mapping in front of it if the column calls for one.
Inside brackets the same is done without columns, with one remembered place per bracket.
-/

namespace EndpointBindings.Yaml

/-- A place where a key may have started. -/
structure PossibleKey where
  /-- The number of tokens before it. -/
  tokenIndex : Nat
  index : Nat
  line : Nat
  column : Nat
  /-- Whether nothing but a key can stand there. -/
  required : Bool

/-- The longest key, in characters, that is not marked in front. -/
def maxKeyLength : Nat := 1024

/-- What the tokens so far leave open. -/
structure Layout where
  cursor : Cursor
  tokens : Array Token := #[]
  /-- The column of the innermost block, or `-1` outside all blocks. -/
  indent : Int := -1
  /-- The columns of the blocks around it. -/
  outer : List Int := []
  /-- The number of open brackets. -/
  brackets : Nat := 0
  /-- Whether a key may start here. -/
  keyAllowed : Bool := true
  /-- The remembered places, one per open bracket and one for the block outside; innermost first. -/
  keys : List (Option PossibleKey) := [none]

namespace Layout

/-- Whether a bracket is open. -/
def inFlow (s : Layout) : Bool := s.brackets ≠ 0

/-- Add a token. -/
def push (s : Layout) (t : Token) : Layout := { s with tokens := s.tokens.push t }

/-- Move over one character and add a token for it. -/
def pushMark (s : Layout) (t : Token) : Layout := { s with cursor := s.cursor.skip 1 }.push t

/-- Open a block when the column lies right of the innermost one; its token goes to `place`. -/
def openBlock (s : Layout) (column : Nat) (place : Nat) (t : Token) : Layout :=
  if s.inFlow || (column : Int) ≤ s.indent then s
  else { s with
    indent := column
    outer := s.indent :: s.outer
    tokens := if h : place ≤ s.tokens.size then s.tokens.insertIdx place t h else s.tokens.push t }

/-- Close the blocks right of a column, the innermost first. -/
def closeBlocksTo (column : Int) : List Int → Int → Array Token → Array Token × Int × List Int
  | [], indent, tokens => (tokens, indent, [])
  | next :: outer, indent, tokens =>
    if column < indent then closeBlocksTo column outer next (tokens.push .blockEnd)
    else (tokens, indent, next :: outer)

/-- Close the blocks that a node at the given column ends. -/
def closeBlocks (s : Layout) (column : Int) : Layout :=
  if s.inFlow then s
  else
    let (tokens, indent, outer) := closeBlocksTo column s.outer s.indent s.tokens
    { s with tokens, indent, outer }

/-- Forget a place that has become too far away; none when a key was required there. -/
def forgetFar (c : Cursor) : Option PossibleKey → Option (Option PossibleKey)
  | none => some none
  | some k =>
    if k.line < c.line ∨ k.index + maxKeyLength < c.index then
      if k.required then none else some none
    else some (some k)

/-- Forget every place that has become too far away. -/
def forgetFarKeys (s : Layout) : Option Layout := do
  return { s with keys := ← s.keys.mapM (forgetFar s.cursor) }

/-- Forget the innermost place; none when a key was required there. -/
def forgetKey (s : Layout) : Option Layout :=
  match s.keys with
  | some k :: keys => if k.required then none else some { s with keys := none :: keys }
  | _ => some s

/-- Remember this place as the start of a possible key, if one may start here. -/
def rememberKey (s : Layout) : Option Layout := do
  if !s.keyAllowed then return s
  let s ← s.forgetKey
  let c := s.cursor
  let k : PossibleKey :=
    { tokenIndex := s.tokens.size, index := c.index, line := c.line, column := c.column
      required := !s.inFlow && s.indent = c.column }
  return { s with keys := some k :: s.keys.drop 1 }

/-- Move to the next token: over blanks, comments and line breaks.  A new line outside brackets may
start a key.  Tabs are blanks only where no key can start. -/
def skipGap (inFlow : Bool) : Nat → Bool → Cursor → Bool × Cursor
  | 0, keyAllowed, c => (keyAllowed, c)
  | fuel + 1, keyAllowed, c =>
    let c := if c.index = 0 ∧ c.rest.head? = some '\ufeff' then c.skip 1 else c
    let c := c.skipWhile fun ch => ch = ' ' || (ch = '\t' && (inFlow || !keyAllowed))
    let c := if c.rest.head? = some '#' then c.skipWhile (!isBreak ·) else c
    if c.rest.head?.any isBreak then skipGap inFlow fuel (keyAllowed || !inFlow) c.skipBreak
    else (keyAllowed, c)

/-! ## One token -/

/-- Leave all blocks, as a directive or a marker of document start or end does. -/
def leaveBlocks (s : Layout) : Option Layout := do
  let s ← (s.closeBlocks (-1)).forgetKey
  return { s with keyAllowed := false }

/-- A marker of document start or end. -/
def addMarker (s : Layout) (t : Token) : Option Layout := do
  let s ← s.leaveBlocks
  return { s with cursor := s.cursor.skip 3 }.push t

/-- A directive, which takes its whole line. -/
def addDirective (s : Layout) : Option Layout := do
  let s ← s.leaveBlocks
  let (t, c) ← readDirective s.cursor
  return { s with cursor := c }.push t

/-- An opening bracket.  It may start a key itself, and a key may start after it. -/
def openBracket (s : Layout) (t : Token) : Option Layout := do
  let s ← s.rememberKey
  return { s with keys := none :: s.keys, brackets := s.brackets + 1, keyAllowed := true }.pushMark t

/-- A closing bracket, which takes the place remembered inside with it. -/
def closeBracket (s : Layout) (t : Token) : Option Layout := do
  let s ← s.forgetKey
  let s := if s.inFlow then { s with keys := s.keys.drop 1, brackets := s.brackets - 1 } else s
  return { s with keyAllowed := false }.pushMark t

/-- A comma between items. -/
def addComma (s : Layout) : Option Layout := do
  let s ← s.forgetKey
  return { s with keyAllowed := true }.pushMark .flowEntry

/-- A dash in front of an item, which may open a sequence. -/
def addEntry (s : Layout) : Option Layout := do
  if !s.inFlow && !s.keyAllowed then none
  let s := s.openBlock s.cursor.column s.tokens.size .blockSequenceStart
  let s ← s.forgetKey
  return { s with keyAllowed := true }.pushMark .blockEntry

/-- A question mark in front of a key, which may open a mapping. -/
def addKey (s : Layout) : Option Layout := do
  if !s.inFlow && !s.keyAllowed then none
  let s := s.openBlock s.cursor.column s.tokens.size .blockMappingStart
  let s ← s.forgetKey
  return { s with keyAllowed := !s.inFlow }.pushMark .key

/-- A colon.  It turns the remembered place into a key, or stands for a key that is left out. -/
def addValue (s : Layout) : Option Layout :=
  match s.keys with
  | some k :: keys =>
    let tokens :=
      if h : k.tokenIndex ≤ s.tokens.size then s.tokens.insertIdx k.tokenIndex .key h else s.tokens
    let s := { s with tokens }.openBlock k.column k.tokenIndex .blockMappingStart
    some ({ s with keys := none :: keys, keyAllowed := false }.pushMark .value)
  | _ =>
    if !s.inFlow && !s.keyAllowed then none
    else
      let s := s.openBlock s.cursor.column s.tokens.size .blockMappingStart
      some ({ s with keyAllowed := !s.inFlow }.pushMark .value)

/-- An anchor or alias. -/
def addName (s : Layout) (make : String → Token) : Option Layout := do
  let s ← s.rememberKey
  let (name, c) ← readAnchor s.cursor
  return { s with cursor := c, keyAllowed := false }.push (make name)

/-- A tag. -/
def addTag (s : Layout) : Option Layout := do
  let s ← s.rememberKey
  let (t, c) ← readTag s.inFlow s.cursor
  return { s with cursor := c, keyAllowed := false }.push t

/-- A block scalar.  A key may start on the line after it. -/
def addBlock (s : Layout) (literal : Bool) : Option Layout := do
  let s ← s.forgetKey
  let (text, c) ← readBlock literal s.indent s.cursor
  return { s with cursor := c, keyAllowed := true }.push (.scalar (String.ofList text) false)

/-- A quoted scalar. -/
def addQuoted (s : Layout) (single : Bool) : Option Layout := do
  let s ← s.rememberKey
  let (text, c) ← readQuoted single s.cursor
  return { s with cursor := c, keyAllowed := false }.push (.scalar (String.ofList text) false)

/-- A plain scalar.  A key may start after it when it has passed onto a new line. -/
def addPlain (s : Layout) : Option Layout := do
  let s ← s.rememberKey
  let p ← PlainScalar.read s.inFlow s.indent s.cursor
  return { s with cursor := p.cursor, keyAllowed := p.newLine }.push
    (.scalar (String.ofList p.text) true)

/-- Whether a plain scalar may start at a text. -/
def startsPlain (inFlow : Bool) : List Char → Bool
  | [] => false
  | c :: rest =>
    (!isSpace c && !"-?:,[]\x7b\x7d#&*!|>'\"%@\u0060".toList.contains c)
      || (c = '-' && !rest.head?.any isBlank)
      || (!inFlow && (c = '?' || c = ':') && !atSpace rest)

/-- Add the token at the cursor, which stands at the start of one. -/
def addToken (s : Layout) : Option Layout :=
  let c := s.cursor
  if c.column = 0 && c.rest.head? = some '%' then s.addDirective
  else if c.atMarker then
    s.addMarker (if c.rest.head? = some '-' then .documentStart else .documentEnd)
  else
    match c.rest with
    | [] => none
    | ch :: rest =>
      if ch = '[' then s.openBracket .flowSequenceStart
      else if ch = '{' then s.openBracket .flowMappingStart
      else if ch = ']' then s.closeBracket .flowSequenceEnd
      else if ch = '}' then s.closeBracket .flowMappingEnd
      else if ch = ',' then s.addComma
      else if ch = '-' && atSpace rest then s.addEntry
      else if ch = '?' && (s.inFlow || atSpace rest) then s.addKey
      else if ch = ':' && (s.inFlow || atSpace rest) then s.addValue
      else if ch = '*' then s.addName .alias
      else if ch = '&' then s.addName .anchor
      else if ch = '!' then s.addTag
      else if ch = '|' && !s.inFlow then s.addBlock true
      else if ch = '>' && !s.inFlow then s.addBlock false
      else if ch = '\'' then s.addQuoted true
      else if ch = '"' then s.addQuoted false
      else if startsPlain s.inFlow c.rest then s.addPlain
      else none

/-- Move to the next token and settle what the way there decides. -/
def advance (s : Layout) : Option Layout := do
  let (keyAllowed, c) := skipGap s.inFlow (s.cursor.bound + 1) s.keyAllowed s.cursor
  let s ← { s with cursor := c, keyAllowed }.forgetFarKeys
  return s.closeBlocks s.cursor.column

/-- Add tokens until the text ends. -/
def run : Nat → Layout → Option (Array Token)
  | 0, _ => none
  | fuel + 1, s => do
    let s ← s.advance
    if s.cursor.rest.isEmpty then
      let s ← (s.closeBlocks (-1)).forgetKey
      return s.tokens
    run fuel (← s.addToken)

end Layout

/-- The tokens of a text; none when some part of it is no token. -/
def tokens? (text : String) : Option (List Token) :=
  let cs := text.toList
  if cs.all isPrintable then
    (Layout.run (cs.length + 2) { cursor := .ofText cs }).map Array.toList
  else none

end EndpointBindings.Yaml
