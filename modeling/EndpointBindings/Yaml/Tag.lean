import EndpointBindings.Text.Escape
import EndpointBindings.Yaml.Cursor

/-!
# Names on nodes, and directives

A tag is written in full between `!<` and `>`, or as a handle between two exclamation marks and a
suffix, or as an exclamation mark and a suffix.  An anchor or alias is a word.  A directive line
fixes the version or gives a handle its meaning.
-/

namespace EndpointBindings.Yaml

/-- Characters of the locators that tags are; the brackets and the comma only where `wide`. -/
def isUriChar (wide : Bool) (c : Char) : Bool :=
  isWord c || (";/?:@&=+$.%!~*'()".toList.contains c) || (wide && (c = ',' || c = '[' || c = ']'))

/-- How many octets a character takes whose first octet is given. -/
def octetCount? (lead : Nat) : Option Nat :=
  if lead < 0x80 then some 1
  else if 0xC0 ≤ lead ∧ lead < 0xE0 then some 2
  else if 0xE0 ≤ lead ∧ lead < 0xF0 then some 3
  else if 0xF0 ≤ lead ∧ lead < 0xF8 then some 4
  else none

/-- The octet of an escape such as `%2f`. -/
def uriOctet? : List Char → Option (Nat × List Char)
  | '%' :: a :: b :: rest => (Text.hexNumber? [a, b]).map (·, rest)
  | _ => none

/-- Read `n` further octets of a character. -/
def uriTail (point : Nat) : Nat → List Char → Option (Nat × List Char)
  | 0, cs => some (point, cs)
  | n + 1, cs => do
    let (octet, rest) ← uriOctet? cs
    if octet / 0x40 = 2 then uriTail (point * 0x40 + octet % 0x40) n rest else none

/-- The character that escaped octets write. -/
def uriEscape? (cs : List Char) : Option (Char × List Char) := do
  let (lead, rest) ← uriOctet? cs
  let count ← octetCount? lead
  let start := if count = 1 then lead else lead % Nat.pow 2 (7 - count)
  let (point, rest) ← uriTail start (count - 1) rest
  return (Char.ofNat point, rest)

/-- Read a locator, last character first in `read`. -/
def uriScan (wide : Bool) : Nat → List Char → Cursor → Option (List Char × Cursor)
  | 0, _, _ => none
  | fuel + 1, read, c =>
    match c.rest with
    | [] => some (read.reverse, c)
    | ch :: _ =>
      if ch = '%' then do
        let (e, rest) ← uriEscape? c.rest
        uriScan wide fuel (e :: read) (c.skip (c.rest.length - rest.length))
      else if isUriChar wide ch then uriScan wide fuel (ch :: read) (c.skip 1)
      else some (read.reverse, c)

/-- The locator at a cursor, possibly empty. -/
def readUri (wide : Bool) (c : Cursor) : Option (List Char × Cursor) :=
  uriScan wide (c.bound + 1) [] c

/-- A handle: an exclamation mark, word characters and, if it is there, another mark. -/
def readHandle (c : Cursor) : Option (List Char × Cursor) :=
  match c.rest with
  | '!' :: _ =>
    let (word, c) := (c.skip 1).takeWhile isWord
    match c.rest with
    | '!' :: _ => some ('!' :: word ++ ['!'], c.skip 1)
    | _ => some ('!' :: word, c)
  | _ => none

/-- Whether a handle has its second mark. -/
def isNamedHandle (handle : List Char) : Bool := 1 < handle.length && handle.getLast? = some '!'

/-- The tag at a cursor, as a handle and a suffix.  A tag that stands for itself has an empty
handle. -/
def readTag (inFlow : Bool) (c : Cursor) : Option (Token × Cursor) := do
  let (handle, suffix, c) ←
    match c.rest with
    | '!' :: '<' :: _ => do
      let (suffix, c) ← readUri true (c.skip 2)
      if suffix.isEmpty then none
      if c.rest.head? = some '>' then some ([], suffix, c.skip 1) else none
    | _ => do
      let (handle, c) ← readHandle c
      let (suffix, c) ← readUri false c
      if isNamedHandle handle then
        if suffix.isEmpty then none else some (handle, suffix, c)
      else
        let suffix := handle.drop 1 ++ suffix
        some (if suffix.isEmpty then ([], ['!'], c) else (['!'], suffix, c))
  let ends := atSpace c.rest || (inFlow && c.rest.head? = some ',')
  if ends then some (.tag (String.ofList handle) (String.ofList suffix), c) else none

/-- The name of an anchor or alias after its mark. -/
def readAnchor (c : Cursor) : Option (String × Cursor) :=
  let (name, c) := (c.skip 1).takeWhile isWord
  let ends := atSpace c.rest || c.rest.head?.any ("?:,]\x7d%@\u0060".toList.contains ·)
  if name.isEmpty || !ends then none else some (String.ofList name, c)

/-- A version number of at most nine digits. -/
def readVersionPart (c : Cursor) : Option (Nat × Cursor) :=
  let (ds, c) := c.takeWhile Char.isDigit
  if ds.isEmpty || 9 < ds.length then none
  else some (ds.foldl (fun n d => 10 * n + (d.toNat - '0'.toNat)) 0, c)

/-- A directive from its percent sign to the end of its line. -/
def readDirective (c : Cursor) : Option (Token × Cursor) := do
  let (name, c) := (c.skip 1).takeWhile isWord
  if !atSpace c.rest then none
  let (token, c) ←
    match String.ofList name with
    | "YAML" => do
      let (major, c) ← readVersionPart (c.skipWhile isBlank)
      if c.rest.head? ≠ some '.' then none
      let (minor, c) ← readVersionPart (c.skip 1)
      some (Token.versionDirective major minor, c)
    | "TAG" => do
      let (handle, c) ← readHandle (c.skipWhile isBlank)
      if handle ≠ ['!'] ∧ !isNamedHandle handle then none
      if !c.rest.head?.any isBlank then none
      let (expansion, c) ← readUri true (c.skipWhile isBlank)
      if expansion.isEmpty || !atSpace c.rest then none
      some (Token.tagDirective (String.ofList handle) (String.ofList expansion), c)
    | _ => none
  let c := c.skipToLineEnd
  if atLineEnd c.rest then some (token, c.skipBreak) else none

end EndpointBindings.Yaml
