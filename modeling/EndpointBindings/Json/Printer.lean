import EndpointBindings.Json.Basic
import EndpointBindings.Text.Split

/-!
# Writing a document

Two layouts of one tree.  `compact` has no space anywhere; `pretty` puts every item and member on a
line of its own, two spaces deeper than its container, and writes an empty container as `[]` or
`\x7b\x7d`.  Strings are quoted alike in both: a quote and a backslash are escaped, control
characters take their short escape or four hexadecimal digits, and everything else stands for
itself.
-/

namespace EndpointBindings.Json

/-- A hexadecimal digit in lower case. -/
def hexDigit (n : Nat) : Char := Nat.digitChar n

/-- The written form of one character of a string. -/
def quoteChar (c : Char) : List Char :=
  if c = '"' then ['\\', '"']
  else if c = '\\' then ['\\', '\\']
  else if c = '\n' then ['\\', 'n']
  else if c = '\r' then ['\\', 'r']
  else if c = '\t' then ['\\', 't']
  else if c = '\x08' then ['\\', 'b']
  else if c = '\x0c' then ['\\', 'f']
  else if c.toNat < 0x20 then
    ['\\', 'u', '0', '0', hexDigit (c.toNat / 16), hexDigit (c.toNat % 16)]
  else [c]

/-- A string between quotes. -/
def quote (s : String) : String :=
  String.ofList ('"' :: s.toList.flatMap quoteChar ++ ['"'])

mutual

/-- The text of a tree without spaces. -/
def compact : Json → String
  | .null => "null"
  | .bool true => "true"
  | .bool false => "false"
  | .number n => n.text
  | .string s => quote s
  | .list xs => "[" ++ Text.join "," (compactItems xs) ++ "]"
  | .object ms => "\x7b" ++ Text.join "," (compactMembers ms) ++ "\x7d"

def compactItems : List Json → List String
  | [] => []
  | x :: xs => compact x :: compactItems xs

def compactMembers : List (String × Json) → List String
  | [] => []
  | (k, v) :: ms => (quote k ++ ":" ++ compact v) :: compactMembers ms

end

/-- Two blanks for each level. -/
def indent (level : Nat) : String := String.ofList (List.replicate (2 * level) ' ')

/-- A container laid out over lines, its closing bracket at `level`. -/
def spread (opening closing : String) (level : Nat) : List String → String
  | [] => opening ++ closing
  | items =>
    opening ++ "\n" ++ Text.join ",\n" (items.map (indent (level + 1) ++ ·)) ++ "\n"
      ++ indent level ++ closing

mutual

/-- The text of a tree laid out over lines; `level` is the depth of the line it starts on. -/
def pretty (level : Nat) : Json → String
  | .list xs => spread "[" "]" level (prettyItems (level + 1) xs)
  | .object ms => spread "\x7b" "\x7d" level (prettyMembers (level + 1) ms)
  | v => compact v

def prettyItems (level : Nat) : List Json → List String
  | [] => []
  | x :: xs => pretty level x :: prettyItems level xs

def prettyMembers (level : Nat) : List (String × Json) → List String
  | [] => []
  | (k, v) :: ms => (quote k ++ ": " ++ pretty level v) :: prettyMembers level ms

end

end EndpointBindings.Json
