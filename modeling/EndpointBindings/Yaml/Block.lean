import EndpointBindings.Yaml.Cursor

/-!
# Block scalars

A block scalar starts with `|` or `>` and a header that may fix the indentation and what becomes of
the line breaks at the end: `-` drops them, `+` keeps them all, and without either one is kept.
Its lines are those indented at least as far as the first line that is not empty.

After `|` the lines stand as they are.  After `>` two lines are joined by a space, unless one of
them starts with a blank or empty lines stand between them.
-/

namespace EndpointBindings.Yaml

/-- What becomes of the line breaks at the end. -/
inductive Chomping where
  | strip | clip | keep
deriving DecidableEq

/-- The header after the indicator. -/
structure BlockHeader where
  chomping : Chomping := .clip
  /-- The indentation beyond that of the enclosing block, when it is given. -/
  increment : Option Nat := none

/-- The sign of a header that says what becomes of the line breaks. -/
def chomping? (c : Char) : Option Chomping :=
  if c = '+' then some .keep else if c = '-' then some .strip else none

/-- The header and what follows it; none when the indentation is given as zero. -/
def BlockHeader.read (c : Cursor) : Option (BlockHeader × Cursor) :=
  let digit (h : BlockHeader) (c : Cursor) : Option (BlockHeader × Cursor) :=
    match c.rest with
    | d :: _ =>
      if d = '0' then none
      else if d.isDigit then some ({ h with increment := some (d.toNat - '0'.toNat) }, c.skip 1)
      else some (h, c)
    | [] => some (h, c)
  let sign (h : BlockHeader) (c : Cursor) : BlockHeader × Cursor :=
    match c.rest.head?.bind chomping? with
    | some ch => ({ h with chomping := ch }, c.skip 1)
    | none => (h, c)
  if (c.rest.head?.bind chomping?).isSome then
    let (h, c) := sign {} c
    digit h c
  else (digit {} c).map fun (h, c) => sign h c

/-- Read indentation and empty lines; the breaks, the deepest column and the cursor result.
`indent` is the indentation when it is known; a tab left of it is refused. -/
def blockGap (indent : Option Nat) :
    Nat → List Char → Nat → Cursor → Option (List Char × Nat × Cursor)
  | 0, _, _, _ => none
  | fuel + 1, breaks, deepest, c =>
    let left (c : Cursor) : Bool := indent.all (c.column < ·)
    let c :=
      match indent with
      | none => c.skipWhile (· = ' ')
      | some n => c.skip ((c.rest.take (n - c.column)).takeWhile (· = ' ')).length
    let deepest := max deepest c.column
    match c.rest with
    | [] => some (breaks, deepest, c)
    | ch :: _ =>
      if left c && ch = '\t' then none
      else if isBreak ch then
        let (b, c) := c.takeBreak
        blockGap indent fuel (breaks ++ b) deepest c
      else some (breaks, deepest, c)

/-- What has been read of a block scalar. -/
structure BlockText where
  /-- The text without the gap before the next line, last character first. -/
  read : List Char := []
  /-- The break at the end of the last line. -/
  lastBreak : List Char := []
  /-- The breaks of the empty lines after it. -/
  emptyLines : List Char := []
  /-- Whether the last line started with a blank. -/
  afterBlank : Bool := false

/-- The text with the gap before the next line settled, last character first. -/
def BlockText.joined (b : BlockText) (literal nextBlank : Bool) : List Char :=
  let folds := !literal && b.lastBreak = ['\n'] && !b.afterBlank && !nextBlank
  let gap :=
    if folds then (if b.emptyLines.isEmpty then [' '] else []) else b.lastBreak
  b.emptyLines.reverse ++ (gap.reverse ++ b.read)

/-- Read the lines at the given indentation. -/
def blockLines (literal : Bool) (indent : Nat) : Nat → BlockText → Cursor → Option (BlockText × Cursor)
  | 0, _, _ => none
  | fuel + 1, b, c =>
    if c.column = indent && !c.rest.isEmpty then do
      let startsBlank := c.rest.head?.any isBlank
      let read := b.joined literal startsBlank
      let (line, c) := c.takeWhile (!isBreak ·)
      let (lastBreak, c) := c.takeBreak
      let (emptyLines, _, c) ← blockGap (some indent) (c.bound + 1) [] 0 c
      blockLines literal indent fuel ⟨line.reverse ++ read, lastBreak, emptyLines, startsBlank⟩ c
    else some (b, c)

/-- The block scalar whose indicator is at a cursor, inside a block of the given indentation. -/
def readBlock (literal : Bool) (enclosing : Int) (c : Cursor) : Option (List Char × Cursor) := do
  let (header, c) ← BlockHeader.read (c.skip 1)
  let c := c.skipToLineEnd
  if !atLineEnd c.rest then none
  let c := c.skipBreak
  let given := header.increment.map fun n => if 0 ≤ enclosing then enclosing.toNat + n else n
  let (emptyLines, deepest, c) ← blockGap given (c.bound + 1) [] 0 c
  let indent := given.getD (max (max deepest (enclosing + 1).toNat) 1)
  let (b, c) ← blockLines literal indent (c.bound + 1) { emptyLines := emptyLines } c
  let ending := match header.chomping with
    | .strip => []
    | .clip => b.lastBreak
    | .keep => b.lastBreak ++ b.emptyLines
  return (b.read.reverse ++ ending, c)

end EndpointBindings.Yaml
