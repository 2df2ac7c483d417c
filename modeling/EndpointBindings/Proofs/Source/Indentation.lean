import EndpointBindings.Proofs.Validator.Layout
import Mathlib.Data.List.DropRight
import Mathlib.Data.List.Forall2

/-!
# What is laid out apart is laid out in place

An object in another one is laid out by itself, from the margin on, and its text is then put into
the other one as a line, level after level.  The outcome is the same as if its steps had been taken
where its text is put (`laid_out_in_place`).

The steps are taken here by a builder, which holds the text so far and a level that goes up and
down with the blocks.  What they should give is said without it, by the lines of their texts.

| | |
| :-- | :-- |
| `Builder.run b steps` | the builder after the steps |
| `givenLines depth steps` | the lines of the steps' texts, each with the blocks around it |
| `Indented level given line` | a given line under two blanks for each level, or an empty line |
| `EndsIn text core n` | a text is `core` and then so many line ends, which are all |

Two facts carry the theorem.  Indenting twice is indenting once by the sum
(`indentLine_indentLine`), so the lines at a level are the lines from the margin, indented
(`linesOfSteps_eq_map`).  And a text made of lines is cut into the same lines again
(`split_ofLines_append`), so that only empty lines at its end can be lost.
-/

namespace EndpointBindings.TypeScript

/-! ## The builder -/

/-- Source that is being written. -/
structure Builder where
  /-- What is written so far. -/
  text : String := ""
  /-- The level of the lines that come next. -/
  level : Nat := 0

namespace Builder

/-- Write characters as they are. -/
def add (b : Builder) (text : String) : Builder := { b with text := b.text ++ text }

/-- Write a line: two blanks for each level unless it is empty, and its line end. -/
def writeLine (b : Builder) (line : String) : Builder :=
  if line = "" then b.add "\n" else ((Nat.repeat (add · "  ") b.level b).add line).add "\n"

/-- Write a text line by line. -/
def write (b : Builder) (text : String) : Builder := (Text.split '\n' text).foldl writeLine b

def enter (b : Builder) : Builder := { b with level := b.level + 1 }

def leave (b : Builder) : Builder := { b with level := b.level - 1 }

mutual

/-- Take a step. -/
def perform (b : Builder) : Step → Builder
  | .line text => b.write text
  | .block opening closing body => (((b.write opening).enter.run body).leave).write closing

/-- Take steps one after another. -/
def run (b : Builder) : List Step → Builder
  | [] => b
  | s :: ss => (b.perform s).run ss

end

theorem add_add (b : Builder) (s t : String) : (b.add s).add t = b.add (s ++ t) := by
  simp only [add, String.append_assoc]

end Builder

/-! ## What the builder writes -/

theorem indentation_succ (level : Nat) : indentation (level + 1) = indentation level ++ "  " := by
  rw [indentation, indentation, Nat.mul_succ, List.replicate_add, String.ofList_append]
  rfl

theorem ofLines_nil : ofLines [] = "" := rfl

theorem ofLines_cons (line : String) (lines : List String) :
    ofLines (line :: lines) = line ++ "\n" ++ ofLines lines := by
  rw [ofLines, List.map_cons, String.join_cons, ofLines]

theorem ofLines_append (lines more : List String) :
    ofLines (lines ++ more) = ofLines lines ++ ofLines more :=
  String.toList_injective (by
    rw [Validator.toList_ofLines_append, String.toList_append])

namespace Builder

theorem repeat_blanks (n : Nat) (b : Builder) :
    Nat.repeat (add · "  ") n b = b.add (indentation n) := by
  induction n with
  | zero => simp [Nat.repeat, add, indentation]
  | succ n ih => rw [Nat.repeat, ih, add_add, indentation_succ]

theorem writeLine_eq (b : Builder) (line : String) :
    b.writeLine line = b.add (indentLine b.level line ++ "\n") := by
  rw [writeLine, indentLine]
  split
  · rw [String.empty_append]
  · rw [repeat_blanks, add_add, add_add, String.append_assoc]

theorem foldl_writeLine (b : Builder) (lines : List String) :
    lines.foldl writeLine b = b.add (ofLines (lines.map (indentLine b.level))) := by
  induction lines generalizing b with
  | nil => simp [add, ofLines_nil]
  | cons line lines ih =>
      rw [List.foldl_cons, ih, writeLine_eq, add_add, List.map_cons, ofLines_cons]
      rfl

theorem write_eq (b : Builder) (text : String) :
    b.write text = b.add (ofLines (textLines b.level text)) :=
  foldl_writeLine b (Text.split '\n' text)

mutual

/-- A step writes its lines and leaves the level as it was. -/
theorem perform_eq (b : Builder) : ∀ s : Step, b.perform s = b.add (ofLines (s.lines b.level))
  | .line text => b.write_eq text
  | .block opening closing body => by
      -- the body starts one level in and ends there, so the closing text is where the opening is
      rw [perform, run_eq _ body, write_eq, write_eq, Step.lines, ofLines_append, ofLines_append]
      simp only [add, enter, leave, Nat.add_sub_cancel, String.append_assoc]

/-- Steps write their lines and leave the level as it was. -/
theorem run_eq (b : Builder) :
    ∀ steps : List Step, b.run steps = b.add (ofLines (linesOfSteps b.level steps))
  | [] => by
      rw [run, linesOfSteps, ofLines_nil]
      simp only [add, String.append_empty]
  | s :: ss => by
      rw [run, perform_eq b s, run_eq _ ss, add_add, linesOfSteps, ofLines_append]
      rfl

end

end Builder

/-! ## Lines as they are given -/

/-- A line of a text, with the number of blocks around it. -/
structure GivenLine where
  depth : Nat
  text : String

def givenText (depth : Nat) (text : String) : List GivenLine :=
  (Text.split '\n' text).map (⟨depth, ·⟩)

mutual

/-- The lines of the texts of a step, from above. -/
def Step.givenLines (depth : Nat) : Step → List GivenLine
  | .line text => givenText depth text
  | .block opening closing body =>
    givenText depth opening ++ TypeScript.givenLines (depth + 1) body ++ givenText depth closing

/-- The lines of the texts of steps, from above. -/
def givenLines (depth : Nat) : List Step → List GivenLine
  | [] => []
  | s :: ss => s.givenLines depth ++ givenLines depth ss

end

/-- A given line where it is put. -/
def GivenLine.setAt (level : Nat) (given : GivenLine) : String :=
  indentLine (level + given.depth) given.text

theorem textLines_eq_map (level depth : Nat) (text : String) :
    textLines (level + depth) text = (givenText depth text).map (GivenLine.setAt level) := by
  rw [givenText, List.map_map]
  rfl

mutual

theorem Step.lines_eq_map (level depth : Nat) :
    ∀ s : Step, s.lines (level + depth) = (s.givenLines depth).map (GivenLine.setAt level)
  | .line text => textLines_eq_map level depth text
  | .block opening closing body => by
      have hbody := linesOfSteps_eq_map_given level (depth + 1) body
      rw [← Nat.add_assoc] at hbody
      rw [Step.lines, Step.givenLines, List.map_append, List.map_append, hbody, textLines_eq_map,
        textLines_eq_map]

/-- Every line of the steps is a given line, indented by the level and by the blocks around it. -/
theorem linesOfSteps_eq_map_given (level depth : Nat) :
    ∀ steps : List Step,
      linesOfSteps (level + depth) steps = (givenLines depth steps).map (GivenLine.setAt level)
  | [] => rfl
  | s :: ss => by
      rw [linesOfSteps, givenLines, List.map_append, Step.lines_eq_map level depth s,
        linesOfSteps_eq_map_given level depth ss]

end

/-- Indenting twice is indenting once by the sum. -/
theorem indentLine_indentLine (level depth : Nat) (line : String) :
    indentLine level (indentLine depth line) = indentLine (level + depth) line := by
  unfold indentLine
  by_cases h : line = ""
  · rw [if_pos h, if_pos rfl, if_pos h]
  · have hne : indentation depth ++ line ≠ "" := fun he => h (String.append_eq_empty_iff.1 he).2
    rw [if_neg h, if_neg hne, if_neg h, indentation, indentation, indentation, Nat.mul_add,
      List.replicate_add, String.ofList_append, String.append_assoc]

theorem linesOfSteps_eq_given (level : Nat) (steps : List Step) :
    linesOfSteps level steps = (givenLines 0 steps).map (GivenLine.setAt level) :=
  linesOfSteps_eq_map_given level 0 steps

/-- The lines at a level are the lines from the margin, indented. -/
theorem linesOfSteps_eq_map (level : Nat) (steps : List Step) :
    linesOfSteps level steps = (linesOfSteps 0 steps).map (indentLine level) := by
  rw [linesOfSteps_eq_given level, linesOfSteps_eq_given 0, List.map_map]
  refine List.map_congr_left fun given _ => ?_
  rw [Function.comp_apply, GivenLine.setAt, GivenLine.setAt, indentLine_indentLine, Nat.zero_add]

/-! ## Cutting what is written -/

theorem lineEnd_not_mem_givenText {depth : Nat} {text : String} {given : GivenLine}
    (h : given ∈ givenText depth text) : '\n' ∉ given.text.toList := by
  obtain ⟨line, hline, rfl⟩ := List.mem_map.1 h
  obtain ⟨p, hp, rfl⟩ := List.mem_map.1 hline
  rw [String.toList_ofList]
  exact Text.not_mem_of_mem_pieces hp

mutual

theorem Step.lineEnd_not_mem_given {depth : Nat} {given : GivenLine} :
    ∀ s : Step, given ∈ s.givenLines depth → '\n' ∉ given.text.toList
  | .line text, h => lineEnd_not_mem_givenText h
  | .block opening closing body, h => by
      rw [Step.givenLines, List.mem_append, List.mem_append] at h
      rcases h with (h | h) | h
      · exact lineEnd_not_mem_givenText h
      · exact lineEnd_not_mem_given body h
      · exact lineEnd_not_mem_givenText h

/-- A given line is one line. -/
theorem lineEnd_not_mem_given {depth : Nat} {given : GivenLine} :
    ∀ steps : List Step, given ∈ givenLines depth steps → '\n' ∉ given.text.toList
  | [], h => absurd h List.not_mem_nil
  | s :: ss, h => by
      rw [givenLines, List.mem_append] at h
      rcases h with h | h
      · exact s.lineEnd_not_mem_given h
      · exact lineEnd_not_mem_given ss h

end

/-- Blanks in front of a line leave it one line. -/
theorem lineEnd_not_mem_indentLine {line : String} (h : '\n' ∉ line.toList) (level : Nat) :
    '\n' ∉ (indentLine level line).toList := by
  rw [indentLine]
  split
  · exact List.not_mem_nil
  · rw [String.toList_append, List.mem_append, not_or, indentation, String.toList_ofList]
    exact ⟨fun hblank => absurd (List.eq_of_mem_replicate hblank) (by decide), h⟩

theorem lineEnd_not_mem_linesOfSteps {level : Nat} {steps : List Step} {line : String}
    (h : line ∈ linesOfSteps level steps) : '\n' ∉ line.toList := by
  rw [linesOfSteps_eq_given] at h
  obtain ⟨given, hgiven, rfl⟩ := List.mem_map.1 h
  exact lineEnd_not_mem_indentLine (lineEnd_not_mem_given steps hgiven) _

/-- A text made of lines, and of a last one that does not end, is cut into them. -/
theorem split_ofLines_append {lines : List String} (h : ∀ line ∈ lines, '\n' ∉ line.toList)
    {last : String} (hlast : '\n' ∉ last.toList) :
    Text.split '\n' (ofLines lines ++ last) = lines ++ [last] := by
  induction lines with
  | nil =>
      rw [ofLines_nil, String.empty_append, Text.split, Text.pieces_of_not_mem hlast,
        List.map_singleton, String.ofList_toList, List.nil_append]
  | cons line lines ih =>
      have hchars : (ofLines (line :: lines) ++ last).toList =
          line.toList ++ '\n' :: (ofLines lines ++ last).toList := by
        simp [ofLines_cons]
      have hrest := ih fun line' hmem => h line' (List.mem_cons_of_mem _ hmem)
      rw [Text.split, hchars, Text.pieces_append_cons (h line List.mem_cons_self), List.map_cons,
        ← Text.split, hrest, String.ofList_toList, List.cons_append]

/-! ## The end of what is written -/

/-- So many line ends. -/
def lineEnds (n : Nat) : String := String.ofList (List.replicate n '\n')

theorem ofLines_replicate (n : Nat) : ofLines (List.replicate n "") = lineEnds n := by
  induction n with
  | zero => rfl
  | succ n ih =>
      rw [List.replicate_succ, ofLines_cons, ih, lineEnds, lineEnds, List.replicate_succ,
        ← List.singleton_append, String.ofList_append]
      rfl

/-- A text and what it is without the line ends at its end. -/
structure EndsIn (text core : String) (n : Nat) : Prop where
  text_eq : text = core ++ lineEnds n
  last : core.toList.getLast? ≠ some '\n'

theorem trimLineEnds_eq_rdropWhile (text : String) :
    trimLineEnds text = String.ofList (text.toList.rdropWhile (· = '\n')) := rfl

theorem endsIn_trimLineEnds (text : String) : ∃ n, EndsIn text (trimLineEnds text) n := by
  have hends : ∀ c ∈ text.toList.rtakeWhile (· = '\n'), c = '\n' :=
    fun c hc => by simpa using List.mem_rtakeWhile_imp hc
  refine ⟨(text.toList.rtakeWhile (· = '\n')).length, ?_, ?_⟩
  · rw [trimLineEnds_eq_rdropWhile, lineEnds, ← List.eq_replicate_of_mem hends,
      ← String.ofList_append, List.rdropWhile_append_rtakeWhile, String.ofList_toList]
  · intro h
    rw [trimLineEnds_eq_rdropWhile, String.toList_ofList] at h
    have hne : text.toList.rdropWhile (· = '\n') ≠ [] := by
      intro he
      rw [he] at h
      cases h
    rw [List.getLast?_eq_some_getLast hne] at h
    exact List.rdropWhile_last_not _ _ hne (decide_eq_true (Option.some.inj h))

/-- Nothing but the line ends at its end is taken from a text. -/
theorem EndsIn.trimLineEnds_eq {text core : String} {n : Nat} (h : EndsIn text core n) :
    trimLineEnds text = core := by
  have hkeep : core.toList.rdropWhile (· = '\n') = core.toList := by
    refine List.rdropWhile_eq_self_iff.2 fun hne hlast => h.last ?_
    rw [List.getLast?_eq_some_getLast hne, of_decide_eq_true hlast]
  have hends : ∀ n, (core.toList ++ List.replicate n '\n').rdropWhile (· = '\n') = core.toList := by
    intro n
    induction n with
    | zero => rw [List.replicate_zero, List.append_nil, hkeep]
    | succ n ih =>
        rw [List.replicate_succ', ← List.append_assoc, List.rdropWhile_concat_pos _ _ _ rfl, ih]
  rw [h.text_eq, trimLineEnds_eq_rdropWhile, String.toList_append, lineEnds, String.toList_ofList,
    hends, String.ofList_toList]

/-- A text ends as its last line does. -/
theorem getLast?_append_ne_lineEnd (front : String) {last : String} (hne : last ≠ "")
    (hlast : '\n' ∉ last.toList) : (front ++ last).toList.getLast? ≠ some '\n' := by
  intro h
  have hchars : last.toList ≠ [] := fun he => hne (String.toList_eq_nil_iff.1 he)
  rw [String.toList_append, List.getLast?_append_of_ne_nil _ hchars] at h
  exact hlast (List.mem_of_getLast? h)

/-- Lines are all empty, or the empty ones at their end stand behind one that is not. -/
theorem exists_last_filled : ∀ lines : List String,
    (∃ n, lines = List.replicate n "") ∨
      ∃ front last n, last ≠ "" ∧ lines = front ++ last :: List.replicate n ""
  | [] => .inl ⟨0, rfl⟩
  | line :: lines => by
      rcases exists_last_filled lines with ⟨n, rfl⟩ | ⟨front, last, n, hlast, rfl⟩
      · by_cases hline : line = ""
        · exact .inl ⟨n + 1, by rw [hline, List.replicate_succ]⟩
        · exact .inr ⟨[], line, n, hline, rfl⟩
      · exact .inr ⟨line :: front, last, n, hlast, rfl⟩

/-- Lines with empty ones at their end, as text. -/
theorem ofLines_filled (front : List String) (last : String) (n : Nat) :
    ofLines (front ++ last :: List.replicate n "") = ofLines front ++ last ++ lineEnds (n + 1) := by
  have hends : lineEnds (n + 1) = "\n" ++ lineEnds n := by
    rw [← ofLines_replicate, List.replicate_succ, ofLines_cons, ofLines_replicate]
    rfl
  rw [ofLines_append, ofLines_cons, ofLines_replicate, hends]
  simp only [String.append_assoc]

/-- A text that is not empty is laid out up to the last of its lines that is not. -/
theorem layOut_filled {steps : List Step} {front : List String} {last : String} {n : Nat}
    (hlines : linesOfSteps 0 steps = front ++ last :: List.replicate n "") (hne : last ≠ "")
    (hlast : '\n' ∉ last.toList) : layOut steps = ofLines front ++ last := by
  rw [layOut, hlines, ofLines_filled]
  exact EndsIn.trimLineEnds_eq ⟨rfl, getLast?_append_ne_lineEnd _ hne hlast⟩

theorem layOut_eq_empty {steps : List Step} {n : Nat}
    (hlines : linesOfSteps 0 steps = List.replicate n "") : layOut steps = "" := by
  rw [layOut, hlines, ofLines_replicate]
  exact EndsIn.trimLineEnds_eq ⟨(String.empty_append ..).symm, by decide⟩

/-- What steps write at a level is what their text gives there, but for the line ends at its end. -/
theorem ofLines_textLines_layOut (level : Nat) (steps : List Step) (h : layOut steps ≠ "") :
    ∃ core n, EndsIn (ofLines (linesOfSteps level steps)) core (n + 1) ∧
      ofLines (textLines level (layOut steps)) = core ++ "\n" := by
  have honeLine : ∀ line ∈ linesOfSteps 0 steps, '\n' ∉ line.toList :=
    fun line => lineEnd_not_mem_linesOfSteps
  rcases exists_last_filled (linesOfSteps 0 steps) with ⟨n, hlines⟩ | ⟨front, last, n, hne, hlines⟩
  · exact absurd (layOut_eq_empty hlines) h
  · -- the text stops behind `last`, and it is there that the `n` empty lines are lost
    rw [hlines] at honeLine
    have hfront : ∀ line ∈ front, '\n' ∉ line.toList :=
      fun line hline => honeLine line (List.mem_append_left _ hline)
    have hlast : '\n' ∉ last.toList :=
      honeLine last (List.mem_append_right _ List.mem_cons_self)
    have hne' : indentLine level last ≠ "" := by
      rw [indentLine, if_neg hne]
      exact fun he => hne (String.append_eq_empty_iff.1 he).2
    refine ⟨ofLines (front.map (indentLine level)) ++ indentLine level last, n, ⟨?_, ?_⟩, ?_⟩
    · have hblank : indentLine level "" = "" := rfl
      rw [linesOfSteps_eq_map, hlines, List.map_append, List.map_cons, List.map_replicate, hblank,
        ofLines_filled]
    · exact getLast?_append_ne_lineEnd _ hne' (lineEnd_not_mem_indentLine hlast level)
    · rw [layOut_filled hlines hne hlast, textLines, split_ofLines_append hfront hlast,
        List.map_append, ofLines_append, List.map_singleton, ofLines_cons, ofLines_nil,
        String.append_empty, String.append_assoc]

/-! ## The theorem -/

/-- A given line and what is written for it at a level. -/
structure Indented (level : Nat) (given : GivenLine) (line : String) : Prop where
  empty : given.text = "" → line = ""
  filled : given.text ≠ "" →
    line = String.join (List.replicate (level + given.depth) "  ") ++ given.text

theorem indentation_eq_join (level : Nat) :
    indentation level = String.join (List.replicate level "  ") := by
  induction level with
  | zero => rfl
  | succ level ih =>
      rw [List.replicate_succ', String.join_append, ← ih, indentation_succ]
      simp

theorem indented_setAt (level : Nat) (given : GivenLine) :
    Indented level given (given.setAt level) where
  empty := by
    intro h
    rw [GivenLine.setAt, indentLine, if_pos h]
  filled := by
    intro h
    rw [GivenLine.setAt, indentLine, if_neg h, indentation_eq_join]

/-- What steps write when a builder takes them. -/
structure Builder.Writes (b : Builder) (steps : List Step) (written : String) : Prop where
  text : (b.run steps).text = b.text ++ written
  /-- The level behind the steps, and so behind a block, is the level before them. -/
  level : (b.run steps).level = b.level
  /-- The lines that are written are the given ones, each under its indentation. -/
  lines : ∃ lines, Text.split '\n' written = lines ++ [""] ∧
    List.Forall₂ (Indented b.level) (givenLines 0 steps) lines
  /-- The text that is laid out apart, written here at once, comes to the same, with one line end
  at the end. -/
  apart : layOut steps ≠ "" → ∃ core n, EndsIn written core (n + 1) ∧
    b.write (layOut steps) = b.add (core ++ "\n")

/-- **What is laid out apart is laid out in place.**  The text of steps is what a builder writes
from the margin on, without the line ends at its end.  Wherever a builder takes the steps, it writes
their lines under two blanks for each level and is at the same level afterwards, and when it writes
their text instead, it writes the same lines. -/
theorem laid_out_in_place (steps : List Step) (b : Builder) :
    (∃ n, EndsIn (Builder.run {} steps).text (layOut steps) n) ∧
      b.Writes steps (ofLines (linesOfSteps b.level steps)) := by
  constructor
  · rw [Builder.run_eq, Builder.add, String.empty_append]
    exact endsIn_trimLineEnds _
  · refine ⟨?_, ?_, ⟨linesOfSteps b.level steps, ?_, ?_⟩, ?_⟩
    · rw [b.run_eq]
      rfl
    · rw [b.run_eq]
      rfl
    · rw [← String.append_empty (s := ofLines _)]
      exact split_ofLines_append (fun line => lineEnd_not_mem_linesOfSteps) List.not_mem_nil
    · rw [linesOfSteps_eq_given, List.forall₂_map_right_iff, List.forall₂_same]
      intro given _
      exact indented_setAt b.level given
    · intro h
      obtain ⟨core, n, hends, htext⟩ := ofLines_textLines_layOut b.level steps h
      exact ⟨core, n, hends, by rw [b.write_eq, htext]⟩

/-! ### An address -/

/-- Empty lines in front, inside and at the end, and a block in a block. -/
def addressSteps : List Step :=
  [.line "", .block "address: \x7b" "\x7d,\n"
    [.line "street: 1,\n\ncity: 2,", .block "place: \x7b" "\x7d," [.line "zone: 3,"]]]

/-- The address from the margin on. -/
def addressText : String :=
  "\naddress: \x7b\n  street: 1,\n\n  city: 2,\n  place: \x7b\n    zone: 3,\n  \x7d,\n\x7d,"

/-- A person, whose members stand one level in. -/
def person : Builder := { text := "person: \x7b\n", level := 1 }

theorem addressSteps_in_place :
    layOut addressSteps = addressText ∧ layOut addressSteps ≠ "" ∧
      person.Writes addressSteps (ofLines (linesOfSteps 1 addressSteps)) ∧
      ∃ core n, EndsIn (ofLines (linesOfSteps 1 addressSteps)) core (n + 1) ∧
        person.write addressText = person.add (core ++ "\n") := by
  have htext : layOut addressSteps = addressText := by decide +kernel
  have hne : layOut addressSteps ≠ "" := by
    rw [htext]
    decide
  obtain ⟨-, hwrites⟩ := laid_out_in_place addressSteps person
  have hapart := hwrites.apart hne
  rw [htext] at hapart
  exact ⟨htext, hne, hwrites, hapart⟩

end EndpointBindings.TypeScript
