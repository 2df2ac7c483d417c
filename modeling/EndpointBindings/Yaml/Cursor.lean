/-!
# Characters and tokens of a YAML text

The text is read in two passes with a list of tokens between them.  The first pass knows characters,
columns and brackets; it turns indentation into tokens that open and close blocks, and finds the
keys that are marked only by the colon after them.  The second pass knows the grammar, and nothing
of the text.
-/

namespace EndpointBindings.Yaml

/-! ## Tokens -/

/-- A token.  A scalar remembers whether it stood without quotes, since only such a one can denote
anything but a string. -/
inductive Token where
  | versionDirective (major minor : Nat)
  | tagDirective (handle expansion : String)
  | documentStart
  | documentEnd
  | blockSequenceStart
  | blockMappingStart
  | blockEnd
  | flowSequenceStart
  | flowSequenceEnd
  | flowMappingStart
  | flowMappingEnd
  | blockEntry
  | flowEntry
  | key
  | value
  | anchor (name : String)
  | alias (name : String)
  | tag (handle suffix : String)
  | scalar (text : String) (isPlain : Bool)
deriving DecidableEq, Inhabited

/-! ## Positions

A cursor is what is left of a text together with the place that has been reached: how many
characters came before, on which line, in which column.  Indentation is read off the column, and
whether a key may still be a key off the line and the index.

Five line breaks are known.  In the values that are read, the first four become a line feed, and a
carriage return with a line feed counts once; the separators of lines and of paragraphs stay what
they are.
-/

/-- The line breaks. -/
def isBreak (c : Char) : Bool :=
  c = '\r' || c = '\n' || c = '\u0085' || c = '\u2028' || c = '\u2029'

/-- The blanks inside a line. -/
def isBlank (c : Char) : Bool := c = ' ' || c = '\t'

/-- A blank or a line break. -/
def isSpace (c : Char) : Bool := isBlank c || isBreak c

/-- Letters, digits, the hyphen and the low line: what names are made of. -/
def isWord (c : Char) : Bool := c.isAlphanum || c = '-' || c = '_'

/-- Characters that a text may hold at all. -/
def isPrintable (c : Char) : Bool :=
  c = '\t' || c = '\n' || c = '\r' || (' ' ≤ c && c ≤ '~') || c = '\u0085'
    || ('\u00a0' ≤ c && c ≤ '\ufffd') || 0x10000 ≤ c.toNat

/-- Whether a text stands at a blank, a line break or its end. -/
def atSpace : List Char → Bool
  | [] => true
  | c :: _ => isSpace c

/-- Whether a text stands at a line break or its end. -/
def atLineEnd : List Char → Bool
  | [] => true
  | c :: _ => isBreak c

/-- Whether a text starts with a marker of document start or end, set apart by a space. -/
def atDocumentMarker (cs : List Char) : Bool :=
  match cs with
  | '-' :: '-' :: '-' :: rest => atSpace rest
  | '.' :: '.' :: '.' :: rest => atSpace rest
  | _ => false

/-- A place in a text and what follows it. -/
structure Cursor where
  rest : List Char
  /-- The length of the whole text, which bounds every loop over what follows. -/
  bound : Nat
  index : Nat := 0
  line : Nat := 0
  column : Nat := 0

namespace Cursor

/-- The start of a text. -/
def ofText (cs : List Char) : Cursor := { rest := cs, bound := cs.length }

/-- Move over `n` characters of one line. -/
def skip (c : Cursor) (n : Nat) : Cursor :=
  { c with rest := c.rest.drop n, index := c.index + n, column := c.column + n }

/-- Take the characters of one line that satisfy a predicate. -/
def takeWhile (c : Cursor) (p : Char → Bool) : List Char × Cursor :=
  let taken := c.rest.takeWhile p
  (taken, { c with
    rest := c.rest.dropWhile p, index := c.index + taken.length,
    column := c.column + taken.length })

/-- Move over the characters of one line that satisfy a predicate. -/
def skipWhile (c : Cursor) (p : Char → Bool) : Cursor := (c.takeWhile p).2

/-- Take a line break: the character it stands for, and the start of the next line. -/
def takeBreak (c : Cursor) : List Char × Cursor :=
  let next (n : Nat) : Cursor :=
    { c with rest := c.rest.drop n, index := c.index + n, line := c.line + 1, column := 0 }
  match c.rest with
  | '\r' :: '\n' :: _ => (['\n'], next 2)
  | b :: _ =>
    if b = '\u2028' ∨ b = '\u2029' then ([b], next 1)
    else if isBreak b then (['\n'], next 1)
    else ([], c)
  | [] => ([], c)

/-- Move over a line break. -/
def skipBreak (c : Cursor) : Cursor := c.takeBreak.2

/-- Move over the blanks of a line and over a comment after them. -/
def skipToLineEnd (c : Cursor) : Cursor :=
  let c := c.skipWhile isBlank
  match c.rest with
  | '#' :: _ => c.skipWhile (!isBreak ·)
  | _ => c

/-- Whether a marker of document start or end opens the line. -/
def atMarker (c : Cursor) : Bool := c.column = 0 && atDocumentMarker c.rest

end Cursor

end EndpointBindings.Yaml
