import EndpointBindings.Text.Split

/-!
# Pieces of source

Generated source is put together from three things: names, literals and laid-out lines.
-/

namespace EndpointBindings.TypeScript

/-! ## Identifiers

The names that generated source declares are made of ASCII letters, digits, `_` and `$`, and do not
start with a digit.  Any text becomes such a name by putting `_` for every other character, and `_`
in front where a digit or nothing would stand.
-/

/-- Characters that a name may hold. -/
def isNameChar (c : Char) : Bool := c.isAlphanum || c = '_' || c = '$'

/-- Characters that a name may start with. -/
def isNameStart (c : Char) : Bool := c.isAlpha || c = '_' || c = '$'

/-- Whether characters make a name. -/
def isNameList : List Char → Bool
  | [] => false
  | c :: cs => isNameStart c && cs.all isNameChar

/-- Whether a text is a name. -/
def isIdentifier (name : String) : Bool := isNameList name.toList

/-- Characters made into a name. -/
def sanitizeList (cs : List Char) : List Char :=
  match cs.map fun c => if isNameChar c then c else '_' with
  | [] => ['_']
  | c :: cs => if c.isDigit then '_' :: c :: cs else c :: cs

/-- A text made into a name. -/
def sanitize (name : String) : String := String.ofList (sanitizeList name.toList)

/-! ### Laws -/

theorem isNameStart_of_isNameChar {c : Char} (h : isNameChar c) (hd : c.isDigit = false) :
    isNameStart c := by
  simp_all [isNameChar, isNameStart, Char.isAlphanum]

/-- What is made into a name is a name. -/
theorem isNameList_sanitizeList (cs : List Char) : isNameList (sanitizeList cs) := by
  have hall : ∀ c ∈ cs.map (fun c => if isNameChar c then c else '_'), isNameChar c := by
    intro c hc
    obtain ⟨d, -, rfl⟩ := List.mem_map.1 hc
    split
    · assumption
    · rfl
  unfold sanitizeList
  split
  · rfl
  · next c cs' heq =>
    rw [heq] at hall
    have hc : isNameChar c := hall c (List.mem_cons_self ..)
    have hcs : cs'.all isNameChar := List.all_eq_true.2 fun d hd => hall d (List.mem_cons_of_mem _ hd)
    split
    · simp [isNameList, hc, hcs]; rfl
    · next hd =>
      simp only [isNameList, hcs, Bool.and_true]
      exact isNameStart_of_isNameChar hc (by simpa using hd)

/-! ## String literals

Text enters generated source between single quotes.  Backslashes, quotes, backticks and the two line
ends that a literal may not hold are escaped, and everything else stands for itself.  An object key
that is a name needs no quotes.
-/

/-- A character inside a literal. -/
def escapeChar (c : Char) : List Char :=
  if c = '\\' then ['\\', '\\']
  else if c = '\'' then ['\\', '\'']
  else if c = '\u0060' then ['\\', '\u0060']
  else if c = '\n' then ['\\', 'n']
  else if c = '\r' then ['\\', 'r']
  else [c]

/-- A text inside a literal. -/
def escape (text : String) : String := String.ofList (text.toList.flatMap escapeChar)

/-- A text as a literal. -/
def literal (text : String) : String := "'" ++ escape text ++ "'"

/-- A name, or a literal, as a key of an object. -/
def propertyKey (name : String) : String := if isIdentifier name then name else literal name

/-! ## Laying out

Source is laid out by steps: a text stands at the current indentation, and a block sets its body one
level deeper between an opening and a closing text.  A text of several lines is indented line by
line, so that a piece laid out by itself can be put into another one and keeps its shape.  Empty
lines stay empty.
-/

/-- A step of laying out. -/
inductive Step where
  | line (text : String)
  | block (opening closing : String) (body : List Step)
deriving Inhabited

/-- Two blanks for each level. -/
def indentation (level : Nat) : String := String.ofList (List.replicate (2 * level) ' ')

/-- A line at a level. -/
def indentLine (level : Nat) (line : String) : String :=
  if line = "" then "" else indentation level ++ line

/-- The lines of a text at a level. -/
def textLines (level : Nat) (text : String) : List String :=
  (Text.split '\n' text).map (indentLine level)

mutual

/-- The lines of a step at a level. -/
def Step.lines (level : Nat) : Step → List String
  | .line text => textLines level text
  | .block opening closing body =>
    textLines level opening ++ linesOfSteps (level + 1) body ++ textLines level closing

def linesOfSteps (level : Nat) : List Step → List String
  | [] => []
  | s :: ss => s.lines level ++ linesOfSteps level ss

end

/-- Lines as text, each with its line end. -/
def ofLines (lines : List String) : String := String.join (lines.map (· ++ "\n"))

/-- A text without the line ends at its end. -/
def trimLineEnds (text : String) : String :=
  String.ofList (text.toList.reverse.dropWhile (· = '\n')).reverse

/-- The text of steps, without line ends at its end. -/
def layOut (steps : List Step) : String := trimLineEnds (ofLines (linesOfSteps 0 steps))

end EndpointBindings.TypeScript
