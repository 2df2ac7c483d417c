import EndpointBindings.Proofs.Validator.Lexer
import EndpointBindings.Text.Escape
import EndpointBindings.TypeScript.Basic

/-!
# Literals are exact

A literal between single quotes is read here as ECMAScript 2019 has it in a module, with everything
that may stand in one, whether generated source writes it or not.  Its value is a list of code units
of UTF-16.

| behind a backslash | what is read |
| :-- | :-- |
| `b`, `t`, `n`, `v`, `f`, `r` | the control character of that name |
| `x` and two hexadecimal digits, `u` and four | the code unit with that number |
| `u` and hexadecimal digits in braces | the code point with that number, up to `10FFFF` |
| `0`, when no digit follows | the null character |
| another digit | nothing that is allowed |
| a line end: line feed, carriage return or both, U+2028, U+2029 | nothing, and the text goes on |
| any other character | the character itself |

A raw line feed or carriage return is not allowed, while U+2028 and U+2029 are.

Each character of a text is read back from what it is escaped to, whatever follows
(`read_escapeChar`), and by induction so is the text (`readLiteral_literal`).
-/

namespace EndpointBindings.TypeScript

/-! ## Code units -/

/-- The code units of a code point: itself, or a pair of surrogates above the first plane. -/
def codeUnits (n : Nat) : List Nat :=
  if n < 0x10000 then [n]
  else [0xD800 + (n - 0x10000) / 0x400, 0xDC00 + (n - 0x10000) % 0x400]

/-- The code units of characters. -/
def unitsOf (cs : List Char) : List Nat := cs.flatMap (codeUnits ·.toNat)

/-- A text as code units. -/
def utf16 (text : String) : List Nat := unitsOf text.toList

/-- A character is no surrogate. -/
theorem toNat_not_surrogate (c : Char) :
    c.toNat < 0xD800 ∨ 0xDFFF < c.toNat ∧ c.toNat < 0x110000 := c.valid

theorem codeUnits_ne_nil (n : Nat) : codeUnits n ≠ [] := by
  unfold codeUnits
  split <;> exact List.cons_ne_nil _ _

/-- The first character can be told from the code units. -/
theorem codeUnits_append_inj {c d : Char} {us vs : List Nat}
    (h : codeUnits c.toNat ++ us = codeUnits d.toNat ++ vs) : c = d ∧ us = vs := by
  have hc := toNat_not_surrogate c
  have hd := toNat_not_surrogate d
  rw [← Char.toNat_inj]
  unfold codeUnits at h
  split at h <;> split at h <;>
    simp only [List.cons_append, List.nil_append, List.cons.injEq] at h
  · exact h
  · omega
  · omega
  · obtain ⟨hhigh, hlow, hrest⟩ := h
    exact ⟨by omega, hrest⟩

theorem unitsOf_inj : ∀ {cs ds : List Char}, unitsOf cs = unitsOf ds → cs = ds
  | [], [], _ => rfl
  | [], d :: ds, h => absurd (List.append_eq_nil_iff.1 h.symm).1 (codeUnits_ne_nil _)
  | c :: cs, [], h => absurd (List.append_eq_nil_iff.1 h).1 (codeUnits_ne_nil _)
  | c :: cs, d :: ds, h => by
      obtain ⟨rfl, hrest⟩ := codeUnits_append_inj h
      rw [unitsOf_inj hrest]

/-- **A text has its code units to itself.** -/
theorem utf16_inj {s t : String} : utf16 s = utf16 t ↔ s = t := by
  constructor
  · intro h
    exact String.toList_injective (unitsOf_inj h)
  · rintro rfl
    rfl

/-! ## Reading a literal -/

/-- Where in a literal a character stands. -/
inductive Place where
  /-- Where the text goes on or ends. -/
  | text
  /-- Behind a backslash. -/
  | escape
  /-- Behind a backslash and a carriage return, to which a line feed would belong. -/
  | carriage
  /-- Behind a backslash and a zero. -/
  | zero
  /-- Among hexadecimal digits, with so many to come after the next one. -/
  | digits (left value : Nat)
  /-- Behind a backslash and `u`. -/
  | unicode
  /-- Among the hexadecimal digits in braces. -/
  | point (value : Option Nat)

/-- What a character does where it stands. -/
inductive Outcome where
  | refused
  | closed
  | next (units : List Nat) (place : Place)

/-- A character where the text goes on or ends. -/
def inText (c : Char) : Outcome :=
  if c = '\'' then .closed
  else if c = '\\' then .next [] .escape
  else if c = '\n' ∨ c = '\r' then .refused
  else .next (codeUnits c.toNat) .text

/-- The character that a letter names behind a backslash. -/
def namedChar (c : Char) : Char :=
  if c = 'b' then '\x08'
  else if c = 't' then '\t'
  else if c = 'n' then '\n'
  else if c = 'v' then '\x0b'
  else if c = 'f' then '\x0c'
  else if c = 'r' then '\r'
  else c

/-- A character behind a backslash. -/
def escaped (c : Char) : Outcome :=
  if c = '\r' then .next [] .carriage
  else if c = '\n' ∨ c = '\u2028' ∨ c = '\u2029' then .next [] .text
  else if c = 'x' then .next [] (.digits 1 0)
  else if c = 'u' then .next [] .unicode
  else if c = '0' then .next [0] .zero
  else if c.isDigit then .refused
  else .next (codeUnits (namedChar c).toNat) .text

/-- A character in its place. -/
def Place.read : Place → Char → Outcome
  | .text, c => inText c
  | .escape, c => escaped c
  | .carriage, c => if c = '\n' then .next [] .text else inText c
  | .zero, c => if c.isDigit then .refused else inText c
  | .digits left value, c =>
      match Text.hexValue? c, left with
      | none, _ => .refused
      | some d, 0 => .next [16 * value + d] .text
      | some d, left + 1 => .next [] (.digits left (16 * value + d))
  | .unicode, c =>
      if c = '{' then .next [] (.point none)
      else
        match Text.hexValue? c with
        | none => .refused
        | some d => .next [] (.digits 2 d)
  | .point value, c =>
      if c = '}' then
        match value with
        | none => .refused
        | some n => .next (codeUnits n) .text
      else
        match Text.hexValue? c with
        | none => .refused
        | some d =>
            let n := 16 * value.getD 0 + d
            if n ≤ 0x10FFFF then .next [] (.point (some n)) else .refused

/-- Code units in front of those of a value. -/
def prepend (units : List Nat) (read : List Nat × List Char) : List Nat × List Char :=
  (units ++ read.1, read.2)

/-- The value of what is left of a literal, and what follows its closing quote; none when there is
no such quote, or something that is not allowed before it. -/
def readOn : Place → List Char → Option (List Nat × List Char)
  | _, [] => none
  | place, c :: cs =>
      match place.read c with
      | .refused => none
      | .closed => some ([], cs)
      | .next units place => (readOn place cs).map (prepend units)

/-- The value of the literal that a text starts with, and what follows it. -/
def readLiteral (text : String) : Option (List Nat × List Char) :=
  match text.toList with
  | '\'' :: cs => readOn .text cs
  | _ => none

/-- Escapes of every kind, and a closing quote that is one. -/
example :
    readLiteral "'\\x41\\u0042\\u{1F600}\\0\\\r\n\\q\\'' + '" =
      some ([0x41, 0x42, 0xD83D, 0xDE00, 0, 0x71, 0x27], " + '".toList) := by
  decide

/-! ## Reading what is written -/

/-- **A character is read back** from what it is escaped to, whatever follows. -/
theorem read_escapeChar (c : Char) (rest : List Char) :
    readOn .text (escapeChar c ++ rest) =
      (readOn .text rest).map (prepend (codeUnits c.toNat)) := by
  have hescape : ∀ d, escaped d = .next (codeUnits c.toNat) .text →
      readOn .text ('\\' :: d :: rest) =
        (readOn .text rest).map (prepend (codeUnits c.toNat)) := by
    intro d hd
    have hplace : Place.escape.read d = .next (codeUnits c.toNat) .text := hd
    show (readOn .escape (d :: rest)).map _ = _
    rw [readOn, hplace, Option.map_map]
    rfl
  unfold escapeChar
  split
  · next h => exact hescape '\\' (by rw [h]; rfl)
  · next hbackslash =>
    split
    · next h => exact hescape '\'' (by rw [h]; rfl)
    · next hquote =>
      split
      · next h => exact hescape '\u0060' (by rw [h]; rfl)
      · split
        · next h => exact hescape 'n' (by rw [h]; rfl)
        · next hfeed =>
          split
          · next h => exact hescape 'r' (by rw [h]; rfl)
          · next hreturn =>
            have hplace : Place.text.read c = .next (codeUnits c.toNat) .text := by
              rw [Place.read, inText, if_neg hquote, if_neg hbackslash,
                if_neg (not_or.2 ⟨hfeed, hreturn⟩)]
            rw [List.singleton_append, readOn, hplace]

/-- A text is read back up to whatever follows. -/
theorem readOn_escape (rest : List Char) : ∀ cs : List Char,
    readOn .text (cs.flatMap escapeChar ++ rest) =
      (readOn .text rest).map (prepend (unitsOf cs))
  | [] => Option.map_id'.symm
  | c :: cs => by
      have hunits : prepend (codeUnits c.toNat) ∘ prepend (unitsOf cs) =
          prepend (unitsOf (c :: cs)) :=
        funext fun read => congrArg (·, read.2) (List.append_assoc _ _ _).symm
      rw [List.flatMap_cons, List.append_assoc, read_escapeChar, readOn_escape rest cs,
        Option.map_map, hunits]

/-- **A literal ends at its own quote** and has its text for its value, whatever follows. -/
theorem readLiteral_literal (text rest : String) :
    readLiteral (literal text ++ rest) = some (utf16 text, rest.toList) := by
  have hchars : (literal text ++ rest).toList =
      '\'' :: (text.toList.flatMap escapeChar ++ '\'' :: rest.toList) := by
    simp [literal, escape]
  have hclosed : readOn .text ('\'' :: rest.toList) = some ([], rest.toList) := rfl
  rw [readLiteral, hchars]
  show readOn .text _ = _
  rw [readOn_escape, hclosed, Option.map_some, prepend, List.append_nil]
  rfl

/-- No literal starts another one. -/
theorem literal_append_inj {s t rest rest' : String} :
    literal s ++ rest = literal t ++ rest' ↔ s = t ∧ rest = rest' := by
  constructor
  · intro h
    have hread := readLiteral_literal s rest
    rw [h, readLiteral_literal] at hread
    obtain ⟨hunits, hrest⟩ := Prod.mk.inj (Option.some.inj hread)
    exact ⟨utf16_inj.1 hunits.symm, String.toList_injective hrest.symm⟩
  · rintro ⟨rfl, rfl⟩
    rfl

/-! ## Laying it out -/

/-- **Wherever an escaped text is laid out**, it stands on one line as it is: lines are cut and
indented around it. -/
theorem lines_around_escape (level : Nat) (before text after : String) :
    ∃ above opening closing below,
      Text.split '\n' before = above ++ [opening] ∧ Text.split '\n' after = closing :: below ∧
      (Step.line (before ++ escape text ++ after)).lines level =
        above.map (indentLine level) ++
          indentLine level (opening ++ escape text ++ closing) ::
            below.map (indentLine level) := by
  obtain ⟨ps, p, q, qs, hbefore, hafter, hpieces⟩ :=
    Text.pieces_around (Validator.lineEnd_not_mem_escape text.toList) after.toList before.toList
  refine ⟨ps.map String.ofList, String.ofList p, String.ofList q, qs.map String.ofList, ?_, ?_, ?_⟩
  · rw [Text.split, hbefore, List.map_append, List.map_singleton]
  · rw [Text.split, hafter, List.map_cons]
  · have hchars : (before ++ escape text ++ after).toList =
        before.toList ++ (text.toList.flatMap escapeChar ++ after.toList) := by
      simp [escape]
    rw [Step.lines, textLines, Text.split, hchars, hpieces]
    simp [escape, String.append_assoc]

/-- **Literals are exact.**  A literal ends at the quote behind its escaped text, and its value is
the text; no two literals are alike or start one another; and the escaped text lies on one line,
where laying out leaves it as it is. -/
theorem literal_exact (text : String) :
    (∀ rest, readLiteral (literal text ++ rest) = some (utf16 text, rest.toList)) ∧
      (∀ other, utf16 other = utf16 text ↔ other = text) ∧
      (∀ other rest rest',
        literal text ++ rest = literal other ++ rest' ↔ text = other ∧ rest = rest') ∧
      '\n' ∉ (escape text).toList ∧
      ∀ level before after, ∃ above opening closing below,
        Text.split '\n' before = above ++ [opening] ∧ Text.split '\n' after = closing :: below ∧
        (Step.line (before ++ escape text ++ after)).lines level =
          above.map (indentLine level) ++
            indentLine level (opening ++ escape text ++ closing) ::
              below.map (indentLine level) := by
  refine ⟨readLiteral_literal text, fun _ => utf16_inj, fun _ _ _ => literal_append_inj, ?_,
    fun level before after => lines_around_escape level before text after⟩
  rw [escape, String.toList_ofList]
  exact Validator.lineEnd_not_mem_escape text.toList

end EndpointBindings.TypeScript
