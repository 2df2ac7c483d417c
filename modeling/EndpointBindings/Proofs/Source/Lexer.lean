import EndpointBindings.Proofs.Validator.Layout

/-!
# Tokens of whole files

A file has declarations around its validators, and comments.  Its tokens are those of validators,
the sign of an assignment, the semicolon, and comments from `//` to the end of their line.  A
comment ends at any of four characters; of these, generated source writes the line feed alone, and a
text can hold them all.

`Reads w ts` says that a piece of a file is the tokens `ts` wherever no token is being read, and
leaves none unfinished.  Whatever has its tokens as a part of a validator has them here
(`reads_of_spells`).
-/

namespace EndpointBindings.Source

open Validator (LexState Lexes Spells)

inductive Token where
  | code (t : Validator.Token)
  | assign
  | semicolon
  | comment (text : String)
deriving DecidableEq, Repr

/-! ## Reading -/

/-- What is being read: a token of code, a comment after its first slash, or its text, the last
character first. -/
inductive State where
  | code (s : LexState)
  | slash
  | comment (read : List Char)

/-- Where a file starts, and where no token is being read. -/
def start : State := .code .between

/-- The characters that end a line, and a comment on it. -/
def isLineEnd (c : Char) : Bool := c = '\n' || c = '\r' || c = '\u2028' || c = '\u2029'

/-- What the lexer of validators does, here. -/
def lift : List Validator.Token × LexState → List Token × State
  | (ts, s) => (ts.map .code, .code s)

/-- A character where no token is being read. -/
def enter (c : Char) : Option (List Token × State) :=
  if c = '/' then some ([], .slash)
  else if c = ';' then some ([.semicolon], start)
  else (Validator.enter c).map lift

/-- The token that ends where a character is read that does not belong to it. -/
def ended? : LexState → Option (List Token)
  | .equals => some [.assign]
  | s => (Validator.finished? s).map (List.map .code)

/-- One character; none when it cannot stand where it does.  Two signs of assignment would be
another sign. -/
def step : State → Char → Option (List Token × State)
  | .comment read, c =>
      if isLineEnd c then some ([.comment (String.ofList read.reverse)], start)
      else some ([], .comment (c :: read))
  | .slash, c => if c = '/' then some ([], .comment []) else none
  | .code s, c =>
      match Validator.lexStep s c with
      | some r => some (lift r)
      | none =>
        (ended? s).bind fun ts =>
          if ts = [.assign] ∧ c = '=' then none
          else (enter c).map fun (us, s) => (ts ++ us, s)

/-- The tokens of characters, and what is being read behind them. -/
def run : State → List Char → Option (List Token × State)
  | s, [] => some ([], s)
  | s, c :: cs => (step s c).bind fun (ts, s) => (run s cs).map fun (us, s) => (ts ++ us, s)

/-- The token that ends with the file. -/
def finish? : State → Option (List Token)
  | .code s => ended? s
  | .slash => none
  | .comment read => some [.comment (String.ofList read.reverse)]

/-- The tokens of a file. -/
def lex (text : String) : Option (List Token) :=
  (run start text.toList).bind fun (ts, s) => (finish? s).map (ts ++ ·)

theorem run_cons {s s' : State} {c : Char} {ts : List Token} (h : step s c = some (ts, s'))
    (cs : List Char) : run s (c :: cs) = (run s' cs).map fun (us, s) => (ts ++ us, s) := by
  rw [run, h]
  rfl

theorem run_append (v w : List Char) (s : State) :
    run s (v ++ w) =
      (run s v).bind fun (ts, s) => (run s w).map fun (us, s) => (ts ++ us, s) := by
  induction v generalizing s with
  | nil =>
      show run s w = (run s w).map _
      cases run s w <;> rfl
  | cons c v ih =>
      rw [List.cons_append, run, run]
      cases step s c with
      | none => rfl
      | some r =>
          obtain ⟨ts, s'⟩ := r
          dsimp only [Option.bind_some]
          rw [ih]
          cases run s' v with
          | none => rfl
          | some r =>
              obtain ⟨us, s''⟩ := r
              dsimp only [Option.bind_some, Option.map_some]
              cases run s'' w with
              | none => rfl
              | some r => simp

/-! ## Pieces of a file -/

/-- A piece of a file that is the tokens `ts` where none is being read. -/
def Reads (w : List Char) (ts : List Token) : Prop := run start w = some (ts, start)

theorem Reads.nil : Reads [] [] := rfl

theorem Reads.append {v w : List Char} {ts us : List Token} (hv : Reads v ts) (hw : Reads w us) :
    Reads (v ++ w) (ts ++ us) := by
  rw [Reads, run_append, hv]
  dsimp only [Option.bind_some]
  rw [hw]
  rfl

theorem Reads.lex {text : String} {ts : List Token} (h : Reads text.toList ts) :
    lex text = some ts := by
  rw [Source.lex, h]
  show some (ts ++ []) = some ts
  rw [List.append_nil]

/-- A file that starts with such a piece. -/
theorem Reads.lex_append {v : List Char} {ts us : List Token} (hv : Reads v ts) {w : List Char}
    (h : Source.lex (String.ofList (v ++ w)) = some us) : ∃ rest, us = ts ++ rest := by
  rw [Source.lex, String.toList_ofList, run_append, hv] at h
  dsimp only [Option.bind_some] at h
  cases hw : run start w with
  | none =>
      rw [hw] at h
      cases h
  | some r =>
      obtain ⟨vs, s⟩ := r
      rw [hw] at h
      obtain ⟨ends, -, he⟩ := Option.map_eq_some_iff.1 h
      exact ⟨vs ++ ends, by rw [← he, List.append_assoc]⟩

/-! ### Comments -/

/-- A text that a comment can hold. -/
def OneLine (text : String) : Prop := ∀ c ∈ text.toList, isLineEnd c = false

instance (text : String) : Decidable (OneLine text) :=
  List.decidableBAll (fun c => isLineEnd c = false) text.toList

theorem oneLine_append {a b : String} : OneLine (a ++ b) ↔ OneLine a ∧ OneLine b := by
  simp only [OneLine, String.toList_append, List.mem_append, or_imp, forall_and]

theorem run_comment {cs : List Char} (h : ∀ c ∈ cs, isLineEnd c = false) (read : List Char) :
    run (.comment read) cs = some ([], .comment (cs.reverse ++ read)) := by
  induction cs generalizing read with
  | nil => rfl
  | cons c cs ih =>
      obtain ⟨hc, hcs⟩ := List.forall_mem_cons.1 h
      have hstep : step (.comment read) c = some ([], .comment (c :: read)) := by
        rw [step, if_neg (by simp [hc])]
      rw [run_cons hstep, ih hcs, List.reverse_cons, List.append_assoc, List.singleton_append]
      rfl

/-- A comment goes to the first character that ends its line. -/
theorem reads_comment {text : String} (h : OneLine text) {c : Char} (hc : isLineEnd c = true) :
    Reads ('/' :: '/' :: (text.toList ++ [c])) [.comment text] := by
  have hbody : run (.comment []) (text.toList ++ [c]) = some ([.comment text], start) := by
    have hstep : step (.comment text.toList.reverse) c = some ([.comment text], start) := by
      rw [step, if_pos hc, List.reverse_reverse, String.ofList_toList]
    rw [run_append, run_comment h, List.append_nil]
    dsimp only [Option.bind_some]
    rw [run_cons hstep]
    rfl
  rw [Reads, run_cons (rfl : step start '/' = some ([], .slash)),
    run_cons (rfl : step .slash '/' = some ([], .comment [])), hbody]
  rfl

/-! ### Code -/

/-- The lexer of validators, with what is being read behind the characters. -/
def runCode : LexState → List Char → Option (List Validator.Token × LexState)
  | s, [] => some ([], s)
  | s, c :: cs =>
      (Validator.lexStep s c).bind fun (ts, s) => (runCode s cs).map fun (us, s) => (ts ++ us, s)

theorem lex_append_eq (w rest : List Char) (s : LexState) :
    Validator.lex s (w ++ rest) =
      (runCode s w).bind fun (ts, s) => (Validator.lex s rest).map (ts ++ ·) := by
  induction w generalizing s with
  | nil =>
      show Validator.lex s rest = (Validator.lex s rest).map _
      cases Validator.lex s rest <;> rfl
  | cons c w ih =>
      rw [List.cons_append, Validator.lex, runCode]
      cases Validator.lexStep s c with
      | none => rfl
      | some r =>
          obtain ⟨ts, s'⟩ := r
          dsimp only [Option.bind_some]
          rw [ih]
          cases runCode s' w with
          | none => rfl
          | some r =>
              obtain ⟨us, s''⟩ := r
              dsimp only [Option.bind_some, Option.map_some]
              rw [Option.map_map]
              refine congrArg (Option.map · _) (funext fun vs => ?_)
              exact (List.append_assoc ts us vs).symm

theorem run_of_runCode {w : List Char} {s s' : LexState} {ts : List Validator.Token}
    (h : runCode s w = some (ts, s')) : run (.code s) w = some (ts.map .code, .code s') := by
  induction w generalizing s ts with
  | nil =>
      cases h
      rfl
  | cons c w ih =>
      obtain ⟨⟨us, s₁⟩, hstep, h⟩ := Option.bind_eq_some_iff.1 h
      obtain ⟨⟨vs, s₂⟩, hrest, he⟩ := Option.map_eq_some_iff.1 h
      cases he
      have hlifted : step (.code s) c = some (us.map .code, .code s₁) := by
        rw [step, hstep]
        rfl
      rw [run_cons hlifted, ih hrest]
      simp

/-- Only between two tokens is every text read on as it is read alone: a name or a numeral that is
not finished would take the first character of the text. -/
theorem between_of_lex_eq {us ts : List Validator.Token} {s : LexState}
    (h : ∀ rest, (Validator.lex s rest).map (us ++ ·) =
      (Validator.lex .between rest).map (ts ++ ·)) :
    s = .between ∧ us = ts := by
  have hend : (Validator.finished? s).map (us ++ ·) = some (ts ++ []) := h []
  rw [List.append_nil] at hend
  obtain ⟨fs, hfs, rfl⟩ := Option.map_eq_some_iff.1 hend
  cases s with
  | between =>
      cases hfs
      exact ⟨rfl, (List.append_nil us).symm⟩
  | name read =>
      cases hfs
      have hlonger : some (us ++ [Validator.Token.name (String.ofList ('a' :: read).reverse)]) =
          some (us ++ [Validator.Token.name (String.ofList read.reverse)] ++
            [Validator.Token.name (String.ofList ['a'].reverse)]) := h ['a']
      have hlength := congrArg List.length (Option.some.inj hlonger)
      simp at hlength
  | numeral read =>
      obtain ⟨v, -, rfl⟩ := Option.map_eq_some_iff.1 hfs
      have hlonger := h ['1']
      rw [Validator.lex_cons_nil
          (rfl : Validator.lexStep (.numeral read) '1' = some ([], .numeral ('1' :: read))),
        Validator.lex_cons_nil
          (rfl : Validator.lexStep .between '1' = some ([], .numeral ['1']))] at hlonger
      have hone : Validator.lex (.numeral ['1']) [] = some [.numeral 1] := rfl
      rw [hone] at hlonger
      obtain ⟨_, hread, he⟩ := Option.map_eq_some_iff.1 hlonger
      obtain ⟨_, -, rfl⟩ := Option.map_eq_some_iff.1 hread
      have hlength := congrArg List.length he
      simp at hlength
  | text _ | escaped _ | equals => cases hfs

/-- A piece of a validator leaves no token unfinished: what follows would go on with it. -/
theorem runCode_of_lexes {w : List Char} {ts : List Validator.Token} (h : Lexes w ts) :
    runCode .between w = some (ts, .between) := by
  have hrun : ∀ rest, (runCode .between w).bind (fun (us, s) =>
      (Validator.lex s rest).map (us ++ ·)) = (Validator.lex .between rest).map (ts ++ ·) := by
    intro rest
    rw [← lex_append_eq, h.lex]
  cases hw : runCode .between w with
  | none =>
      have hnil := hrun []
      rw [hw] at hnil
      cases hnil
  | some r =>
      rw [hw] at hrun
      obtain ⟨hs, hts⟩ := between_of_lex_eq hrun
      rw [← hs, ← hts]

theorem reads_lineEnd : Reads ['\n'] [] := rfl

theorem reads_of_lexes {w : List Char} {ts : List Validator.Token} (h : Lexes w ts) :
    Reads w (ts.map .code) :=
  run_of_runCode (runCode_of_lexes h)

/-- **Validators are read in a file as they are read alone.** -/
theorem reads_of_spells {cs : List Char} {ts : List Validator.Token} (h : Spells cs ts) :
    Reads cs (ts.map .code) := by
  induction h with
  | nil => exact .nil
  | lineEnd _ ih => exact reads_lineEnd.append ih
  | piece hw _ ih =>
      rw [List.map_append]
      exact (reads_of_lexes hw).append ih

end EndpointBindings.Source
