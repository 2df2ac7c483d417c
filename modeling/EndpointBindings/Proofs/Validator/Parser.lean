import EndpointBindings.Proofs.Validator.Expression

/-!
# Parsing expressions

The parser goes through the tokens once, from left to right, one step for each, and keeps on a stack
what surrounds the expression at hand.  It reads the whole grammar, not only what `Expr.tokens`
gives: a comma may or may not stand after the last text or field, and any key may be quoted.

An expression is known only after its start has been read, since `a.or(b)` begins with `a`.  The
state `after` is where what has been read may go on as a chain, or may end and be handed to its
surroundings.  So an induction on trees goes through as it is: from `wanted` the tokens of `e` lead
to `after e`, whatever the surroundings are (`run_tokens`).
-/

namespace EndpointBindings.Validator

/-- What surrounds an expression that is being read. -/
inductive Frame where
  | array
  | left
  | right (left : Expr)
  | or (left : Expr)
  | field (before : List (String × Expr)) (key : String)

/-- What the parser has read and waits for; the innermost surroundings come first. -/
inductive State where
  -- an expression is to come, the name that starts one, or the name of a declared validator
  | wanted (stack : List Frame)
  | started (stack : List Frame)
  | named (stack : List Frame)
  -- an expression has been read; then the name of a call on it and what the call takes are to come
  | after (e : Expr) (stack : List Frame)
  | called (e : Expr) (stack : List Frame)
  | bounded (e : Expr) (b : Bound) (stack : List Frame)
  | described (e : Expr) (stack : List Frame)
  -- the next text of an enumeration or its end, or a comma or its end
  | texts (before : List String) (stack : List Frame)
  | textsRead (before : List String) (stack : List Frame)
  -- the next field of an object or its end
  | fields (before : List (String × Expr)) (stack : List Frame)
  -- fixed tokens are to come before the parser goes on
  | expecting (first : Token) (rest : List Token) (next : State)

/-- Wait for tokens and go on. -/
def expect (ts : List Token) (next : State) : State :=
  match ts with
  | [] => next
  | t :: ts => .expecting t ts next

/-- What follows the name that starts a chain. -/
def Start.next (stack : List Frame) : Start → State
  | .plain p => expect [.opening .round, .closing .round] (.after (.plain p) stack)
  | .enum => expect [.opening .round, .opening .square] (.texts [] stack)
  | .array => expect [.opening .round] (.wanted (.array :: stack))
  | .object => expect [.opening .round, .opening .curly] (.fields [] stack)
  | .intersection => expect [.opening .round] (.wanted (.left :: stack))
  | .lazy => expect [.opening .round, .opening .round, .closing .round, .arrow] (.named stack)

/-- What follows the name of a call. -/
def Call.next (e : Expr) (stack : List Frame) : Call → State
  | .mark m => expect [.opening .round, .closing .round] (.after (.mark e m) stack)
  | .bound b => expect [.opening .round] (.bounded e b stack)
  | .describe => expect [.opening .round] (.described e stack)
  | .or => expect [.opening .round] (.wanted (.or e :: stack))

/-- What a token makes of an expression and its surroundings. -/
def stepAfter (e : Expr) (stack : List Frame) (t : Token) : Option State :=
  match t, stack with
  | .dot, stack => some (.called e stack)
  | .closing .round, .array :: stack => some (.after (.array e) stack)
  | .comma, .left :: stack => some (.wanted (.right e :: stack))
  | .closing .round, .right left :: stack => some (.after (.intersection left e) stack)
  | .closing .round, .or left :: stack => some (.after (.or left e) stack)
  | .comma, .field before key :: stack => some (.fields (before ++ [(key, e)]) stack)
  | .closing .curly, .field before key :: stack =>
      some (expect [.closing .round] (.after (.object (before ++ [(key, e)])) stack))
  | _, _ => none

/-- One step of the parser; none when the token is not one that the state waits for. -/
def step : State → Token → Option State
  | .wanted stack, .name "z" => some (expect [.dot] (.started stack))
  | .started stack, .name name => (startOf? name).map (·.next stack)
  | .named stack, .name name => some (expect [.closing .round] (.after (.lazy name) stack))
  | .after e stack, t => stepAfter e stack t
  | .called e stack, .name name => (callOf? name).map (·.next e stack)
  | .bounded e b stack, .numeral limit =>
      some (expect [.closing .round] (.after (.bound e b limit) stack))
  | .described e stack, .text text =>
      some (expect [.closing .round] (.after (.describe e text) stack))
  | .texts before stack, .text v => some (.textsRead (before ++ [v]) stack)
  | .texts before stack, .closing .square | .textsRead before stack, .closing .square =>
      some (expect [.closing .round] (.after (.enum before) stack))
  | .textsRead before stack, .comma => some (.texts before stack)
  | .fields before stack, .name key | .fields before stack, .text key =>
      some (expect [.colon] (.wanted (.field before key :: stack)))
  | .fields before stack, .closing .curly =>
      some (expect [.closing .round] (.after (.object before) stack))
  | .expecting first rest next, t => if t = first then some (expect rest next) else none
  | _, _ => none

def run (s : State) (ts : List Token) : Option State := ts.foldlM step s

/-- The expression that tokens are. -/
def parseTokens (ts : List Token) : Option Expr :=
  match run (.wanted []) ts with
  | some (.after e []) => some e
  | _ => none

/-! ## Reading the tokens of a tree -/

theorem run_cons (s : State) (t : Token) (ts : List Token) :
    run s (t :: ts) = (step s t).bind (run · ts) :=
  List.foldlM_cons

theorem run_start (s : Start) (stack : List Frame) (rest : List Token) :
    run (.wanted stack) (s.tokens ++ rest) = run (s.next stack) (.opening .round :: rest) := by
  show run (.started stack) (.name s.name :: .opening .round :: rest) = _
  rw [run_cons, step, startOf?_name]
  rfl

theorem run_call (c : Call) (e : Expr) (stack : List Frame) (rest : List Token) :
    run (.after e stack) (c.tokens ++ rest) = run (c.next e stack) (.opening .round :: rest) := by
  show run (.called e stack) (.name c.name :: .opening .round :: rest) = _
  rw [run_cons, step, callOf?_name]
  rfl

theorem run_textTokens (stack : List Frame) (rest : List Token) :
    ∀ (values before : List String),
      run (.texts before stack) (textTokens values ++ .closing .square :: .closing .round :: rest) =
        run (.after (.enum (before ++ values)) stack) rest
  | [], before => by rw [List.append_nil]; rfl
  | [v], before => rfl
  | v :: w :: values, before => by
      show run (.texts (before ++ [v]) stack) (textTokens (w :: values) ++ _) = _
      rw [run_textTokens stack rest (w :: values), List.append_assoc, List.singleton_append]

theorem run_keyToken (key : String) (before : List (String × Expr)) (stack : List Frame)
    (rest : List Token) :
    run (.fields before stack) (keyToken key :: .colon :: rest) =
      run (.wanted (.field before key :: stack)) rest := by
  rw [keyToken]
  split <;> rfl

mutual

/-- **The tokens of a tree are read as the tree**, wherever it stands and whatever follows. -/
theorem run_tokens : ∀ (e : Expr) (stack : List Frame) (rest : List Token),
    run (.wanted stack) (e.tokens ++ rest) = run (.after e stack) rest
  | .plain p, stack, rest => by
      rw [Expr.tokens, List.append_assoc, run_start]
      rfl
  | .enum values, stack, rest => by
      rw [Expr.tokens, List.append_assoc, List.append_assoc, run_start]
      show run (.texts [] stack) (textTokens values ++ _) = _
      exact run_textTokens stack rest values []
  | .array items, stack, rest => by
      rw [Expr.tokens, List.append_assoc, List.append_assoc, run_start]
      show run (.wanted (.array :: stack)) (items.tokens ++ _) = _
      rw [run_tokens items]
      rfl
  | .object fields, stack, rest => by
      rw [Expr.tokens, List.append_assoc, List.append_assoc, run_start]
      show run (.fields [] stack) (fieldTokens fields ++ _) = _
      rw [run_fieldTokens fields]
      rfl
  | .intersection left right, stack, rest => by
      rw [Expr.tokens]
      simp only [List.append_assoc, List.cons_append]
      rw [run_start]
      show run (.wanted (.left :: stack)) (left.tokens ++ _) = _
      rw [run_tokens left]
      show run (.wanted (.right left :: stack)) (right.tokens ++ _) = _
      rw [run_tokens right]
      rfl
  | .lazy name, stack, rest => by
      rw [Expr.tokens, List.append_assoc, run_start]
      rfl
  | .mark e m, stack, rest => by
      rw [Expr.tokens, List.append_assoc, List.append_assoc, run_tokens e, run_call]
      rfl
  | .bound e b limit, stack, rest => by
      rw [Expr.tokens, List.append_assoc, List.append_assoc, run_tokens e, run_call]
      rfl
  | .describe e text, stack, rest => by
      rw [Expr.tokens, List.append_assoc, List.append_assoc, run_tokens e, run_call]
      rfl
  | .or left right, stack, rest => by
      rw [Expr.tokens]
      simp only [List.append_assoc]
      rw [run_tokens left, run_call]
      show run (.wanted (.or left :: stack)) (right.tokens ++ _) = _
      rw [run_tokens right]
      rfl

theorem run_fieldTokens : ∀ (fields before : List (String × Expr)) (stack : List Frame)
    (rest : List Token),
    run (.fields before stack) (fieldTokens fields ++ rest) =
      run (.fields (before ++ fields) stack) rest
  | [], before, stack, rest => by rw [fieldTokens, List.append_nil]; rfl
  | (key, e) :: fields, before, stack, rest => by
      rw [fieldTokens]
      simp only [List.append_assoc, List.cons_append]
      rw [run_keyToken, run_tokens e]
      show run (.fields (before ++ [(key, e)]) stack) (fieldTokens fields ++ rest) = _
      rw [run_fieldTokens fields, List.append_assoc, List.singleton_append]

end

theorem parseTokens_tokens (e : Expr) : parseTokens e.tokens = some e := by
  have h := run_tokens e [] []
  rw [List.append_nil] at h
  rw [parseTokens, h]
  rfl

end EndpointBindings.Validator
