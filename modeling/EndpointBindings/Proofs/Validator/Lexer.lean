import EndpointBindings.Proofs.Validator.Expression
import EndpointBindings.Proofs.Validator.Numeral
import EndpointBindings.TypeScript.Basic

/-!
# Tokens of generated source

The characters of an expression are read one by one into tokens.  A name and a numeral go on as long
as they can, a text between quotes is read back from its escapes, and blanks only separate.

`Lexes w ts` says that a piece of text is the tokens `ts` wherever it stands, so that what was
emitted piece by piece is also read piece by piece.  A name or a numeral alone is no such piece,
since what follows might go on with it; with the character behind it, it is one.
-/

namespace EndpointBindings.Validator

open TypeScript

/-! ## Reading -/

/-- What is being read; the characters of a token that is not finished come last first. -/
inductive LexState where
  | between
  | name (read : List Char)
  | numeral (read : List Char)
  | text (read : List Char)
  | escaped (read : List Char)
  | equals

def isBlank (c : Char) : Bool := c = ' ' || c = '\n' || c = '\t' || c = '\r'

/-- The character that an escape stands for.  Escapes by number are not part of the language. -/
def unescape? (c : Char) : Option Char :=
  if c.isDigit || c = 'x' || c = 'u' || c = '\n' || c = '\r' then none
  else if c = 'n' then some '\n'
  else if c = 'r' then some '\r'
  else if c = 't' then some '\t'
  else if c = 'b' then some '\x08'
  else if c = 'f' then some '\x0c'
  else if c = 'v' then some '\x0b'
  else some c

/-- The token that a character is by itself. -/
def single? : Char → Option Token
  | '.' => some .dot
  | ',' => some .comma
  | ':' => some .colon
  | '(' => some (.opening .round)
  | ')' => some (.closing .round)
  | '[' => some (.opening .square)
  | ']' => some (.closing .square)
  | '\x7b' => some (.opening .curly)
  | '\x7d' => some (.closing .curly)
  | _ => none

/-- A character where no token is being read. -/
def enter (c : Char) : Option (List Token × LexState) :=
  if isBlank c then some ([], .between)
  else if isNameStart c then some ([], .name [c])
  else if isNumeralStart c then some ([], .numeral [c])
  else if c = '\'' then some ([], .text [])
  else if c = '=' then some ([], .equals)
  else (single? c).map fun t => ([t], .between)

/-- The token that ends where a character is read that does not belong to it. -/
def finished? : LexState → Option (List Token)
  | .between => some []
  | .name read => some [.name (String.ofList read.reverse)]
  | .numeral read => (readNumeral? read.reverse).map fun v => [.numeral v]
  | .text _ | .escaped _ | .equals => none

/-- One character; none when it cannot stand where it does. -/
def lexStep : LexState → Char → Option (List Token × LexState)
  | .text read, c =>
      if c = '\'' then some ([.text (String.ofList read.reverse)], .between)
      else if c = '\\' then some ([], .escaped read)
      else if c = '\n' ∨ c = '\r' then none
      else some ([], .text (c :: read))
  | .escaped read, c => (unescape? c).map fun d => ([], .text (d :: read))
  | .equals, c => if c = '>' then some ([.arrow], .between) else none
  | .between, c => enter c
  | .name read, c =>
      if isNameChar c then some ([], .name (c :: read))
      else (finished? (.name read)).bind fun ts => (enter c).map fun (us, s) => (ts ++ us, s)
  | .numeral read, c =>
      if isNumeralChar c then some ([], .numeral (c :: read))
      else (finished? (.numeral read)).bind fun ts => (enter c).map fun (us, s) => (ts ++ us, s)

/-- The tokens of characters. -/
def lex : LexState → List Char → Option (List Token)
  | s, [] => finished? s
  | s, c :: cs => (lexStep s c).bind fun (ts, s) => (lex s cs).map (ts ++ ·)

theorem lex_cons {s s' : LexState} {c : Char} {ts : List Token}
    (h : lexStep s c = some (ts, s')) (cs : List Char) :
    lex s (c :: cs) = (lex s' cs).map (ts ++ ·) := by
  rw [lex, h]
  rfl

/-- A character that finishes nothing. -/
theorem lex_cons_nil {s s' : LexState} {c : Char} (h : lexStep s c = some ([], s'))
    (cs : List Char) : lex s (c :: cs) = lex s' cs := by
  rw [lex_cons h]
  cases lex s' cs <;> rfl

/-! ### What a character starts -/

theorem isBlank_eq_false {c : Char} (h : (isNameStart c || isNumeralStart c) = true) :
    isBlank c = false := by
  rw [Bool.eq_false_iff]
  intro hblank
  simp only [isBlank, Bool.or_eq_true, decide_eq_true_eq] at hblank
  rcases hblank with ((rfl | rfl) | rfl) | rfl <;> cases h

theorem enter_of_isNameStart {c : Char} (h : isNameStart c = true) :
    enter c = some ([], .name [c]) := by
  have hblank := isBlank_eq_false (by simp [h] : (isNameStart c || isNumeralStart c) = true)
  rw [enter, if_neg (by simp [hblank]), if_pos h]

/-- Digits come before letters. -/
theorem isAlpha_of_isDigit {c : Char} (h : c.isDigit = true) : c.isAlpha = false := by
  rw [Bool.eq_false_iff]
  intro halpha
  have hdigit : (decide (c.val ≥ '0'.val) && decide (c.val ≤ '9'.val)) = true := h
  have hletter : (decide (c.val ≥ 'A'.val ∧ c.val ≤ 'Z'.val) ||
      (decide (c.val ≥ 'a'.val) && decide (c.val ≤ 'z'.val))) = true := halpha
  simp [UInt32.le_iff_toNat_le] at hdigit hletter
  omega

theorem isNameStart_of_isDigit {c : Char} (h : c.isDigit = true) : isNameStart c = false := by
  rw [Bool.eq_false_iff]
  intro hname
  simp only [isNameStart, Bool.or_eq_true, decide_eq_true_eq] at hname
  rcases hname with (hname | rfl) | rfl
  · rw [isAlpha_of_isDigit h] at hname
    cases hname
  · cases h
  · cases h

theorem enter_of_isNumeralStart {c : Char} (h : isNumeralStart c = true) :
    enter c = some ([], .numeral [c]) := by
  have hblank := isBlank_eq_false (by simp [h] : (isNameStart c || isNumeralStart c) = true)
  have hname : isNameStart c = false := by
    rw [isNumeralStart, Bool.or_eq_true, decide_eq_true_eq] at h
    rcases h with h | rfl
    · exact isNameStart_of_isDigit h
    · rfl
  rw [enter, if_neg (by simp [hblank]), if_neg (by simp [hname]), if_pos h]

/-! ## Pieces of text -/

/-- A piece of text on one line, which is the tokens `ts` wherever it stands. -/
structure Lexes (w : List Char) (ts : List Token) : Prop where
  oneLine : '\n' ∉ w
  lex : ∀ rest, lex .between (w ++ rest) = (lex .between rest).map (ts ++ ·)

theorem Lexes.nil : Lexes [] [] where
  oneLine := List.not_mem_nil
  lex rest := by
    show Validator.lex .between rest = _
    cases Validator.lex .between rest <;> rfl

theorem Lexes.append {v w : List Char} {ts us : List Token} (hv : Lexes v ts) (hw : Lexes w us) :
    Lexes (v ++ w) (ts ++ us) where
  oneLine h := (List.mem_append.1 h).elim hv.oneLine hw.oneLine
  lex rest := by
    rw [List.append_assoc, hv.lex, hw.lex, Option.map_map]
    congr 1
    funext ts'
    exact (List.append_assoc ts us ts').symm

/-- A character that is read where no token is, and leaves none unfinished. -/
theorem lexes_char {c : Char} {ts : List Token} (hline : c ≠ '\n')
    (henter : enter c = some (ts, .between)) : Lexes [c] ts where
  oneLine h := hline (List.mem_singleton.1 h).symm
  lex := lex_cons henter

theorem lexes_blanks (k : Nat) : Lexes (List.replicate k ' ') [] := by
  induction k with
  | zero => exact .nil
  | succ k ih => exact (lexes_char (by decide) rfl : Lexes [' '] []).append ih

theorem lexes_arrow : Lexes ['=', '>'] [.arrow] where
  oneLine := by decide
  lex rest := (lex_cons_nil rfl ('>' :: rest)).trans (lex_cons rfl rest)

/-! ### Names and numerals, each with the character behind it -/

section

variable {reading : List Char → LexState} {belongs : Char → Bool}
  (hstep : ∀ read c, belongs c = true → lexStep (reading read) c = some ([], reading (c :: read)))

include hstep

theorem lex_run (rest : List Char) : ∀ {cs : List Char} (read : List Char),
    (∀ c ∈ cs, belongs c = true) →
      lex (reading read) (cs ++ rest) = lex (reading (cs.reverse ++ read)) rest
  | [], _, _ => rfl
  | c :: cs, read, h => by
      obtain ⟨hc, hcs⟩ := List.forall_mem_cons.1 h
      rw [List.cons_append, lex_cons_nil (hstep read c hc), lex_run rest (c :: read) hcs,
        List.reverse_cons, List.append_assoc, List.singleton_append]

/-- A token that goes on as long as it can, and the character that ends it. -/
theorem lexes_run (hstop : ∀ read c, belongs c = false → lexStep (reading read) c =
      (finished? (reading read)).bind fun ts => (enter c).map fun (us, s) => (ts ++ us, s))
    (hline : belongs '\n' = false) {c d : Char} {cs : List Char} {ts us : List Token}
    (hstart : enter c = some ([], reading [c])) (hcs : ∀ c ∈ cs, belongs c = true)
    (hc : c ≠ '\n') (hfinished : finished? (reading (c :: cs).reverse) = some ts)
    (hd : belongs d = false) (hdline : d ≠ '\n') (henter : enter d = some (us, .between)) :
    Lexes (c :: cs ++ [d]) (ts ++ us) where
  oneLine h := by
    rcases List.mem_append.1 h with h | h
    · rcases List.mem_cons.1 h with h | h
      · exact hc h.symm
      · rw [hcs _ h] at hline
        cases hline
    · exact hdline (List.mem_singleton.1 h).symm
  lex rest := by
    have henter' : lexStep (reading (c :: cs).reverse) d = some (ts ++ us, .between) := by
      rw [hstop _ d hd, hfinished, henter]
      rfl
    rw [List.append_assoc, List.cons_append,
      lex_cons_nil (show lexStep .between c = some ([], reading [c]) from hstart),
      lex_run hstep _ [c] hcs, ← List.reverse_cons]
    exact lex_cons henter' rest

end

theorem lexes_name {n : List Char} {d : Char} {ts : List Token} (hn : isNameList n = true)
    (hd : isNameChar d = false) (hdline : d ≠ '\n') (henter : enter d = some (ts, .between)) :
    Lexes (n ++ [d]) (.name (String.ofList n) :: ts) := by
  cases n with
  | nil => cases hn
  | cons c cs =>
      rw [isNameList, Bool.and_eq_true] at hn
      obtain ⟨hc, hcs⟩ := hn
      have hfinished : finished? (.name (c :: cs).reverse) =
          some [.name (String.ofList (c :: cs))] := by
        rw [finished?, List.reverse_reverse]
      exact lexes_run (fun read c h => by rw [lexStep, if_pos h])
        (fun read c h => by rw [lexStep, if_neg (by simp [h])]) rfl (enter_of_isNameStart hc)
        (List.all_eq_true.1 hcs) (by rintro rfl; cases hc) hfinished hd hdline henter

theorem lexes_numeral {n : List Char} {d : Char} {v : Rat} {ts : List Token}
    (hn : readNumeral? n = some v) (hd : isNumeralChar d = false) (hdline : d ≠ '\n')
    (henter : enter d = some (ts, .between)) : Lexes (n ++ [d]) (.numeral v :: ts) := by
  obtain ⟨c, cs, rfl, hc, hcs⟩ := isNumeralChar_of_readNumeral? hn
  have hfinished : finished? (.numeral (c :: cs).reverse) = some [.numeral v] := by
    rw [finished?, List.reverse_reverse, hn]
    rfl
  exact lexes_run (fun read c h => by rw [lexStep, if_pos h])
    (fun read c h => by rw [lexStep, if_neg (by simp [h])]) rfl
    (enter_of_isNumeralStart hc) hcs (by rintro rfl; cases hc) hfinished hd hdline henter

/-! ### Texts -/

/-- What is escaped in a literal, and that the rest stands for itself. -/
theorem escapeChar_cases (c : Char) :
    (escapeChar c = [c] ∧ c ≠ '\'' ∧ c ≠ '\\' ∧ c ≠ '\n' ∧ c ≠ '\r') ∨
      ∃ d, escapeChar c = ['\\', d] ∧ d ≠ '\n' ∧ unescape? d = some c := by
  unfold escapeChar
  split
  · next h => exact .inr ⟨'\\', rfl, by decide, by rw [h]; rfl⟩
  · split
    · next h => exact .inr ⟨'\'', rfl, by decide, by rw [h]; rfl⟩
    · split
      · next h => exact .inr ⟨'\u0060', rfl, by decide, by rw [h]; rfl⟩
      · split
        · next h => exact .inr ⟨'n', rfl, by decide, by rw [h]; rfl⟩
        · split
          · next h => exact .inr ⟨'r', rfl, by decide, by rw [h]; rfl⟩
          · exact .inl ⟨rfl, by assumption, by assumption, by assumption, by assumption⟩

theorem lex_escapeChar (c : Char) (read rest : List Char) :
    lex (.text read) (escapeChar c ++ rest) = lex (.text (c :: read)) rest := by
  rcases escapeChar_cases c with ⟨h, hquote, hescape, hline, hreturn⟩ | ⟨d, h, -, hd⟩
  · rw [h]
    refine lex_cons_nil ?_ rest
    rw [lexStep, if_neg hquote, if_neg hescape, if_neg (by simp [hline, hreturn])]
  · rw [h]
    show lex (.text read) ('\\' :: d :: rest) = _
    rw [lex_cons_nil rfl]
    refine lex_cons_nil ?_ rest
    rw [lexStep, hd]
    rfl

theorem lex_escape (rest : List Char) : ∀ (cs read : List Char),
    lex (.text read) (cs.flatMap escapeChar ++ rest) = lex (.text (cs.reverse ++ read)) rest
  | [], _ => rfl
  | c :: cs, read => by
      rw [List.flatMap_cons, List.append_assoc, lex_escapeChar, lex_escape rest cs,
        List.reverse_cons, List.append_assoc, List.singleton_append]

theorem lineEnd_not_mem_escape (cs : List Char) : '\n' ∉ cs.flatMap escapeChar := by
  intro h
  obtain ⟨c, -, hc⟩ := List.mem_flatMap.1 h
  rcases escapeChar_cases c with ⟨he, -, -, hline, -⟩ | ⟨d, he, hline, -⟩
  · rw [he] at hc
    exact hline (List.mem_singleton.1 hc).symm
  · rw [he] at hc
    simp [hline.symm] at hc

/-- **A literal is read as its text**, whatever the text holds. -/
theorem lexes_literal (text : String) : Lexes (literal text).toList [.text text] := by
  have hchars : (literal text).toList = '\'' :: (text.toList.flatMap escapeChar ++ ['\'']) := by
    simp [literal, TypeScript.escape]
  rw [hchars]
  constructor
  · intro h
    rcases List.mem_cons.1 h with h | h
    · cases h
    · rcases List.mem_append.1 h with h | h
      · exact lineEnd_not_mem_escape _ h
      · cases List.mem_singleton.1 h
  · intro rest
    rw [List.cons_append, List.append_assoc, List.singleton_append, lex_cons_nil rfl, lex_escape]
    refine lex_cons ?_ rest
    rw [lexStep, if_pos rfl, List.append_nil, List.reverse_reverse, String.ofList_toList]

end EndpointBindings.Validator
