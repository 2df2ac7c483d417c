import EndpointBindings.Text.Escape
import EndpointBindings.Yaml.Cursor

/-!
# Scalars of a YAML text

A scalar stands without quotes, between single quotes or between double quotes, and may run over
several lines, which are folded into one text.
-/

namespace EndpointBindings.Yaml

/-! ## Folding of lines

Blanks around a line break are dropped, one break between two lines becomes a space, and of several
breaks all but the first are kept.  Blanks inside a line are kept as they are.
-/

/-- A run of blanks and line breaks inside a scalar. -/
structure Gap where
  /-- The blanks, while no break has been met. -/
  blanks : List Char := []
  /-- The first break. -/
  firstBreak : List Char := []
  /-- The breaks after it. -/
  laterBreaks : List Char := []
  /-- Whether the line has ended. -/
  newLine : Bool := false

/-- What a gap stands for between two words. -/
def Gap.folded (g : Gap) : List Char :=
  if !g.newLine then g.blanks
  else if g.firstBreak = ['\n'] then
    if g.laterBreaks.isEmpty then [' '] else g.laterBreaks
  else g.firstBreak ++ g.laterBreaks

/-- Read a gap.  After a line break a tab left of `tabStop` is refused. -/
def Gap.scan (tabStop : Int) : Nat → Gap → Cursor → Option (Gap × Cursor)
  | 0, _, _ => none
  | fuel + 1, g, c =>
    match c.rest with
    | [] => some (g, c)
    | ch :: _ =>
      if isBlank ch then
        if g.newLine then
          if ch = '\t' ∧ (c.column : Int) < tabStop then none
          else scan tabStop fuel g (c.skip 1)
        else scan tabStop fuel { g with blanks := g.blanks ++ [ch] } (c.skip 1)
      else if isBreak ch then
        let (b, c) := c.takeBreak
        if g.newLine then scan tabStop fuel { g with laterBreaks := g.laterBreaks ++ b } c
        else scan tabStop fuel { g with blanks := [], firstBreak := b, newLine := true } c
      else some (g, c)

/-- Read the gap at a cursor. -/
def Gap.read (tabStop : Int) (start : Gap) (c : Cursor) : Option (Gap × Cursor) :=
  scan tabStop (c.bound + 1) start c

/-! ## Plain scalars

A scalar without quotes is a sequence of words with gaps between them.  A word ends at a space, at a
colon before a space, and between brackets also at a comma or a bracket.  The scalar ends where a
word cannot go on, at a comment, at a marker of document start or end, and outside brackets at a
line that is indented too little.
-/

/-- The brackets and the comma, which structure text between brackets. -/
def isFlowIndicator (c : Char) : Bool :=
  c = ',' || c = '[' || c = ']' || c = '{' || c = '}'

/-- Whether a text goes on with a character that may not follow a colon between brackets. -/
def refusesColon : List Char → Bool
  | c :: _ => isFlowIndicator c || c = '?'
  | [] => false

/-- The word at the front of a text; none when a colon stands where it may not. -/
def plainWord (inFlow : Bool) : List Char → Option (List Char)
  | [] => some []
  | c :: rest =>
    if isSpace c then some []
    else if inFlow && c = ':' && refusesColon rest then none
    else if (c = ':' && atSpace rest) || (inFlow && isFlowIndicator c) then some []
    else (plainWord inFlow rest).map (c :: ·)

/-- A plain scalar that was read. -/
structure PlainScalar where
  text : List Char
  /-- Whether the cursor has passed onto a new line. -/
  newLine : Bool
  cursor : Cursor

/-- Read words and gaps; `margin` is the least column of a further line, and `read` is last first. -/
def PlainScalar.scan (inFlow : Bool) (margin : Int) :
    Nat → List Char → Gap → Cursor → Option PlainScalar
  | 0, _, _, _ => none
  | fuel + 1, read, gap, c => do
    if c.atMarker || c.rest.head? = some '#' then return ⟨read.reverse, gap.newLine, c⟩
    let word ← plainWord inFlow c.rest
    if word.isEmpty then return ⟨read.reverse, gap.newLine, c⟩
    let read := word.reverse ++ (gap.folded.reverse ++ read)
    let c := c.skip word.length
    if !atSpace c.rest || c.rest.isEmpty then return ⟨read.reverse, false, c⟩
    let (gap, c) ← Gap.read margin {} c
    if !inFlow && (c.column : Int) < margin then return ⟨read.reverse, gap.newLine, c⟩
    scan inFlow margin fuel read gap c

/-- The plain scalar at a cursor, inside a block of the given indentation. -/
def PlainScalar.read (inFlow : Bool) (indent : Int) (c : Cursor) : Option PlainScalar :=
  scan inFlow (indent + 1) (c.bound + 1) [] {} c

/-! ## Quoted scalars

Between single quotes everything stands for itself and a quote is written twice.  Between double
quotes a backslash opens an escape; before a line break it removes the break and the indentation of
the next line.  Lines fold in both.  A marker of document start or end may not open a line.
-/

/-- The character of an escape of one letter. -/
def simpleEscape? (c : Char) : Option Char :=
  match c with
  | '0' => some '\x00'
  | 'a' => some '\x07'
  | 'b' => some '\x08'
  | 't' => some '\t'
  | '\t' => some '\t'
  | 'n' => some '\n'
  | 'v' => some '\x0b'
  | 'f' => some '\x0c'
  | 'r' => some '\r'
  | 'e' => some '\x1b'
  | ' ' => some ' '
  | '"' => some '"'
  | '/' => some '/'
  | '\\' => some '\\'
  | 'N' => some '\u0085'
  | '_' => some '\u00a0'
  | 'L' => some '\u2028'
  | 'P' => some '\u2029'
  | _ => none

/-- How many hexadecimal digits follow an escape letter. -/
def escapeDigits? (c : Char) : Option Nat :=
  match c with
  | 'x' => some 2
  | 'u' => some 4
  | 'U' => some 8
  | _ => none

/-- The character of a code point, surrogates and numbers beyond the last plane excluded. -/
def charOfCode? (n : Nat) : Option Char :=
  if n < 0xD800 ∨ (0xDFFF < n ∧ n ≤ 0x10FFFF) then some (Char.ofNat n) else none

/-- What follows the backslash of an escape: its character and its length. -/
def escape? : List Char → Option (Char × Nat)
  | [] => none
  | e :: rest =>
    match escapeDigits? e with
    | some n =>
      if (rest.take n).length = n then do
        return (← charOfCode? (← Text.hexNumber? (rest.take n)), n + 1)
      else none
    | none => (simpleEscape? e).map (·, 1)

/-- A stretch of a quoted scalar without blanks. -/
structure QuotedRun where
  text : List Char
  /-- Whether the stretch ended in an escaped line break. -/
  joined : Bool
  cursor : Cursor

/-- Read up to a space, the closing quote or an escaped line break; `read` is last first. -/
def QuotedRun.scan (single : Bool) : Nat → List Char → Cursor → Option QuotedRun
  | 0, _, _ => none
  | fuel + 1, read, c =>
    let stop : QuotedRun := ⟨read.reverse, false, c⟩
    match c.rest with
    | [] => some stop
    | ch :: rest =>
      if isSpace ch then some stop
      else if single then
        match ch, rest with
        | '\'', '\'' :: _ => scan single fuel ('\'' :: read) (c.skip 2)
        | '\'', _ => some stop
        | _, _ => scan single fuel (ch :: read) (c.skip 1)
      else if ch = '"' then some stop
      else if ch = '\\' then
        if rest.head?.any isBreak then some ⟨read.reverse, true, (c.skip 1).skipBreak⟩
        else do
          let (e, n) ← escape? rest
          scan single fuel (e :: read) (c.skip (n + 1))
      else scan single fuel (ch :: read) (c.skip 1)

/-- Read stretches and gaps up to the closing quote; `read` is last first. -/
def quotedScan (single : Bool) : Nat → List Char → Cursor → Option (List Char × Cursor)
  | 0, _, _ => none
  | fuel + 1, read, c => do
    if c.atMarker || c.rest.isEmpty then none
    let run ← QuotedRun.scan single (c.bound + 1) [] c
    let read := run.text.reverse ++ read
    let c := run.cursor
    if c.rest.head? = some (if single then '\'' else '"') then return (read.reverse, c.skip 1)
    let (gap, c) ← Gap.read 0 { newLine := run.joined } c
    quotedScan single fuel (gap.folded.reverse ++ read) c

/-- The quoted scalar whose opening quote is at a cursor. -/
def readQuoted (single : Bool) (c : Cursor) : Option (List Char × Cursor) :=
  quotedScan single (c.bound + 1) [] (c.skip 1)

end EndpointBindings.Yaml
