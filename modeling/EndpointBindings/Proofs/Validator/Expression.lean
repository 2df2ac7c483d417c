import EndpointBindings.TypeScript.Basic

/-!
# Validator expressions

The language that validators are written in, as far as generated source uses it: a call on `z` that
starts a chain, and calls on the chain.

    e ::= z.string() | z.number() | z.boolean() | z.null() | z.unknown()
        | z.enum(['..', ..]) | z.array(e) | z.object({ key: e, .. }) | z.intersection(e, e)
        | z.lazy(() => name)
        | e.nullable() | e.optional() | e.datetime() | e.email()
        | e.min(n) | e.max(n) | e.describe('..') | e.or(e)

`Expr` is the tree of an expression, and `Expr.tokens` the tokens that it is made of, whatever
blanks stand between them.  Texts and numerals are what they denote here, and a key of an object is
the same whether it is written as a name or as a text.
-/

namespace EndpointBindings.Validator

/-! ## Trees -/

/-- What starts a chain and takes no argument. -/
inductive Plain where
  | string | number | boolean | null | unknown
deriving DecidableEq, Repr

/-- What a chain goes on with and takes no argument. -/
inductive Mark where
  | nullable | optional | datetime | email
deriving DecidableEq, Repr

/-- What a chain goes on with and takes a number. -/
inductive Bound where
  | min | max
deriving DecidableEq, Repr

/-- The tree of an expression. -/
inductive Expr where
  | plain (p : Plain)
  | enum (values : List String)
  | array (items : Expr)
  | object (fields : List (String × Expr))
  | intersection (left right : Expr)
  | lazy (name : String)
  | mark (e : Expr) (m : Mark)
  | bound (e : Expr) (b : Bound) (limit : Rat)
  | describe (e : Expr) (text : String)
  | or (left right : Expr)
deriving Inhabited

/-! ## The names of the language -/

/-- What may start a chain. -/
inductive Start where
  | plain (p : Plain)
  | enum | array | object | intersection | lazy
deriving DecidableEq, Repr

/-- What a chain may go on with. -/
inductive Call where
  | mark (m : Mark)
  | bound (b : Bound)
  | describe | or
deriving DecidableEq, Repr

def Start.name : Start → String
  | .plain .string => "string"
  | .plain .number => "number"
  | .plain .boolean => "boolean"
  | .plain .null => "null"
  | .plain .unknown => "unknown"
  | .enum => "enum"
  | .array => "array"
  | .object => "object"
  | .intersection => "intersection"
  | .lazy => "lazy"

def Call.name : Call → String
  | .mark .nullable => "nullable"
  | .mark .optional => "optional"
  | .mark .datetime => "datetime"
  | .mark .email => "email"
  | .bound .min => "min"
  | .bound .max => "max"
  | .describe => "describe"
  | .or => "or"

def starts : List Start :=
  [.plain .string, .plain .number, .plain .boolean, .plain .null, .plain .unknown, .enum, .array,
    .object, .intersection, .lazy]

def calls : List Call :=
  [.mark .nullable, .mark .optional, .mark .datetime, .mark .email, .bound .min, .bound .max,
    .describe, .or]

def startOf? (name : String) : Option Start := starts.find? (·.name = name)

def callOf? (name : String) : Option Call := calls.find? (·.name = name)

theorem startOf?_name (s : Start) : startOf? s.name = some s := by
  cases s with
  | plain p => cases p <;> rfl
  | enum | array | object | intersection | lazy => rfl

theorem callOf?_name (c : Call) : callOf? c.name = some c := by
  cases c with
  | mark m => cases m <;> rfl
  | bound b => cases b <;> rfl
  | describe | or => rfl

/-! ## Tokens -/

inductive Bracket where
  | round | square | curly
deriving DecidableEq, Repr

inductive Token where
  | name (text : String)
  | text (value : String)
  | numeral (value : Rat)
  | dot | comma | colon | arrow
  | opening (b : Bracket)
  | closing (b : Bracket)
deriving DecidableEq, Repr

/-- The start of a chain, up to and with the bracket of its arguments. -/
def Start.tokens (s : Start) : List Token := [.name "z", .dot, .name s.name, .opening .round]

/-- A call on a chain, up to and with the bracket of its arguments. -/
def Call.tokens (c : Call) : List Token := [.dot, .name c.name, .opening .round]

/-- A key of an object, which needs no quotes when it is a name. -/
def keyToken (key : String) : Token :=
  if TypeScript.isIdentifier key then .name key else .text key

/-- Texts with commas between them. -/
def textTokens : List String → List Token
  | [] => []
  | [v] => [.text v]
  | v :: w :: vs => .text v :: .comma :: textTokens (w :: vs)

mutual

/-- The tokens of an expression. -/
def Expr.tokens : Expr → List Token
  | .plain p => Start.tokens (.plain p) ++ [.closing .round]
  | .enum values =>
      Start.enum.tokens ++ .opening .square :: textTokens values ++
        [.closing .square, .closing .round]
  | .array items => Start.array.tokens ++ items.tokens ++ [.closing .round]
  | .object fields =>
      Start.object.tokens ++ .opening .curly :: fieldTokens fields ++
        [.closing .curly, .closing .round]
  | .intersection left right =>
      Start.intersection.tokens ++ left.tokens ++ .comma :: right.tokens ++ [.closing .round]
  | .lazy name =>
      Start.lazy.tokens ++
        [.opening .round, .closing .round, .arrow, .name name, .closing .round]
  | .mark e m => e.tokens ++ Call.tokens (.mark m) ++ [.closing .round]
  | .bound e b limit => e.tokens ++ Call.tokens (.bound b) ++ [.numeral limit, .closing .round]
  | .describe e text => e.tokens ++ Call.describe.tokens ++ [.text text, .closing .round]
  | .or left right => left.tokens ++ Call.or.tokens ++ right.tokens ++ [.closing .round]

/-- The tokens of an object's fields, each with a comma after it. -/
def fieldTokens : List (String × Expr) → List Token
  | [] => []
  | (key, e) :: fields => keyToken key :: .colon :: e.tokens ++ .comma :: fieldTokens fields

end

end EndpointBindings.Validator
