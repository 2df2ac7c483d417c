import EndpointBindings.Proofs.Validator.Lexer
import EndpointBindings.TypeScript.Basic

/-!
# Indenting keeps the tokens

An object's fields are laid out on lines of their own, and what is laid out is indented again
wherever it is put.  So a text is taken apart at its line ends: `Spells cs ts` says that `cs` is
made of line ends and of pieces that lie on one line each, and that `ts` are the tokens of those
pieces.  Indentation puts blanks behind line ends and nowhere else, and so it keeps the tokens
(`Spells.indented`), and so does taking line ends away at the end (`Spells.trimLineEnds`).
-/

namespace EndpointBindings.Validator

open TypeScript

/-- A text of one or more lines, and its tokens. -/
inductive Spells : List Char → List Token → Prop
  | nil : Spells [] []
  | lineEnd {cs : List Char} {ts : List Token} : Spells cs ts → Spells ('\n' :: cs) ts
  | piece {w cs : List Char} {us ts : List Token} : Lexes w us → Spells cs ts →
      Spells (w ++ cs) (us ++ ts)

theorem Spells.append {cs ds : List Char} {ts us : List Token} (h : Spells cs ts)
    (h' : Spells ds us) : Spells (cs ++ ds) (ts ++ us) := by
  induction h with
  | nil => exact h'
  | lineEnd _ ih => exact ih.lineEnd
  | piece hw _ ih =>
      rw [List.append_assoc, List.append_assoc]
      exact ih.piece hw

theorem Lexes.spells {w : List Char} {ts : List Token} (h : Lexes w ts) : Spells w ts := by
  have hs := Spells.nil.piece h
  rwa [List.append_nil, List.append_nil] at hs

/-- What a text spells are its tokens. -/
theorem Spells.lex {cs : List Char} {ts : List Token} (h : Spells cs ts) :
    lex .between cs = some ts := by
  induction h with
  | nil => rfl
  | lineEnd _ ih => exact (lex_cons_nil rfl _).trans ih
  | piece hw _ ih =>
      rw [hw.lex, ih]
      rfl

/-! ## Lines -/

/-- The characters of a line at a level, with its line end. -/
def indentedLine (level : Nat) (line : List Char) : List Char :=
  (if line = [] then [] else List.replicate (2 * level) ' ') ++ (line ++ ['\n'])

theorem toList_ofLines (lines : List String) :
    (ofLines lines).toList = lines.flatMap fun line => line.toList ++ ['\n'] := by
  simp [ofLines, String.toList_join, List.flatMap_def, Function.comp_def]

theorem toList_indentLine (level : Nat) (line : List Char) :
    (indentLine level (String.ofList line)).toList ++ ['\n'] = indentedLine level line := by
  rw [indentLine, indentedLine]
  by_cases h : line = []
  · subst h
    rfl
  · have hne : String.ofList line ≠ "" := fun he => h (String.ofList_eq_empty_iff.1 he)
    rw [if_neg h, if_neg hne, indentation, String.toList_append, String.toList_ofList,
      String.toList_ofList, List.append_assoc]

theorem toList_textLines (level : Nat) (text : String) :
    (ofLines (textLines level text)).toList =
      (Text.pieces '\n' text.toList).flatMap (indentedLine level) := by
  rw [toList_ofLines, textLines, Text.split, List.map_map, List.flatMap_map]
  exact congrArg (List.flatMap · _) (funext fun line => toList_indentLine level line)

/-- The blanks in front of a line separate. -/
theorem Spells.indentedLine {level : Nat} {p rest : List Char} {ts : List Token}
    (h : Spells (p ++ '\n' :: rest) ts) : Spells (Validator.indentedLine level p ++ rest) ts := by
  rw [Validator.indentedLine, List.append_assoc, List.append_assoc]
  split
  · exact h
  · exact h.piece (lexes_blanks _)

/-- Every line but the first is indented. -/
theorem Spells.indentedRest (level : Nat) {cs : List Char} {ts : List Token} (h : Spells cs ts) :
    ∀ {p ps}, Text.pieces '\n' cs = p :: ps →
      Spells (p ++ '\n' :: ps.flatMap (Validator.indentedLine level)) ts := by
  induction h with
  | nil =>
      intro p ps hps
      cases hps
      exact .lineEnd .nil
  | @lineEnd cs ts _ ih =>
      intro p ps hps
      rw [Text.pieces, if_pos rfl] at hps
      cases hps
      cases hcs : Text.pieces '\n' cs with
      | nil => exact absurd hcs (Text.pieces_ne_nil '\n' cs)
      | cons q qs =>
          rw [List.flatMap_cons]
          exact (ih hcs).indentedLine.lineEnd
  | @piece w cs us ts hw _ ih =>
      intro p ps hps
      obtain ⟨q, qs, hcs, hwcs⟩ := Text.pieces_append hw.oneLine cs
      rw [hwcs] at hps
      cases hps
      rw [List.append_assoc]
      exact (ih hcs).piece hw

/-- **Indentation keeps the tokens.** -/
theorem Spells.textLines {text : String} {ts : List Token} (h : Spells text.toList ts)
    (level : Nat) : Spells (ofLines (textLines level text)).toList ts := by
  rw [toList_textLines]
  cases hps : Text.pieces '\n' text.toList with
  | nil => exact absurd hps (Text.pieces_ne_nil '\n' text.toList)
  | cons p ps =>
      rw [List.flatMap_cons]
      exact (h.indentedRest level hps).indentedLine

/-! ## Steps -/

theorem toList_ofLines_append (lines more : List String) :
    (ofLines (lines ++ more)).toList = (ofLines lines).toList ++ (ofLines more).toList := by
  rw [toList_ofLines, toList_ofLines, toList_ofLines, List.flatMap_append]

/-- Characters without the line ends at their end. -/
def withoutLineEnds (cs : List Char) : List Char := (cs.reverse.dropWhile (· = '\n')).reverse

theorem withoutLineEnds_append {w : List Char} (hw : '\n' ∉ w) (cs : List Char) :
    withoutLineEnds (w ++ cs) = w ++ withoutLineEnds cs := by
  have hkeep : w.reverse.dropWhile (· = '\n') = w.reverse := by
    cases hr : w.reverse with
    | nil => rfl
    | cons c rest =>
        have hc : c ≠ '\n' := by
          rintro rfl
          exact hw (List.mem_reverse.1 (hr ▸ List.mem_cons_self))
        exact List.dropWhile_cons_of_neg (by simpa using hc)
  rw [withoutLineEnds, withoutLineEnds, List.reverse_append, List.dropWhile_append, hkeep]
  split
  · next h => rw [List.isEmpty_iff.1 h, List.reverse_reverse, List.reverse_nil, List.append_nil]
  · rw [List.reverse_append, List.reverse_reverse]

theorem withoutLineEnds_lineEnd (cs : List Char) :
    withoutLineEnds ('\n' :: cs) = withoutLineEnds cs ∨
      withoutLineEnds ('\n' :: cs) = '\n' :: withoutLineEnds cs := by
  rw [withoutLineEnds, withoutLineEnds, List.reverse_cons, List.dropWhile_append]
  split
  · next h =>
      rw [List.isEmpty_iff.1 h]
      exact .inl rfl
  · exact .inr (List.reverse_append ..)

theorem Spells.withoutLineEnds {cs : List Char} {ts : List Token} (h : Spells cs ts) :
    Spells (withoutLineEnds cs) ts := by
  induction h with
  | nil => exact .nil
  | @lineEnd cs _ _ ih =>
      rcases withoutLineEnds_lineEnd cs with h | h
      · rw [h]
        exact ih
      · rw [h]
        exact ih.lineEnd
  | piece hw _ ih =>
      rw [withoutLineEnds_append hw.oneLine]
      exact ih.piece hw

/-- Steps at a level, and the tokens of their lines. -/
def SpellsSteps (level : Nat) (steps : List Step) (ts : List Token) : Prop :=
  Spells (ofLines (linesOfSteps level steps)).toList ts

theorem SpellsSteps.nil (level : Nat) : SpellsSteps level [] [] := Spells.nil

theorem SpellsSteps.line {level : Nat} {text : String} {steps : List Step} {ts us : List Token}
    (h : Spells text.toList ts) (hs : SpellsSteps level steps us) :
    SpellsSteps level (.line text :: steps) (ts ++ us) := by
  rw [SpellsSteps, linesOfSteps, toList_ofLines_append]
  exact (h.textLines level).append hs

theorem SpellsSteps.block {level : Nat} (opening closing : String) {body steps : List Step}
    {ts us vs ws : List Token} (hopening : Spells opening.toList ts)
    (hbody : SpellsSteps (level + 1) body us) (hclosing : Spells closing.toList vs)
    (hs : SpellsSteps level steps ws) :
    SpellsSteps level (.block opening closing body :: steps) (ts ++ us ++ vs ++ ws) := by
  rw [SpellsSteps, linesOfSteps, toList_ofLines_append, Step.lines, toList_ofLines_append,
    toList_ofLines_append]
  exact (((hopening.textLines level).append hbody).append (hclosing.textLines level)).append hs

/-- What is laid out spells the tokens of its lines. -/
theorem SpellsSteps.layOut {steps : List Step} {ts : List Token} (h : SpellsSteps 0 steps ts) :
    Spells (layOut steps).toList ts := by
  rw [TypeScript.layOut, trimLineEnds, String.toList_ofList]
  exact h.withoutLineEnds

end EndpointBindings.Validator
