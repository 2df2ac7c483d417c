import EndpointBindings.Json.Basic

/-!
# Number literals

A literal is a sign, digits without a leading zero, an optional fraction and an optional exponent.
Without fraction and exponent it is an integer when it fits 64 bits, unsigned or signed; every
other literal is a binary64 number, `-0` among them.  A magnitude that overflows binary64 is no
number at all.

Only the leading digits count: a digit is taken up as long as the digits so far stay below
`2 ^ 64`.  Of the integer digits that come later only the number is kept, and of the fraction's
nothing.  The digits taken up are then scaled as `Decimal.Binary64.ofScaled` says.
-/

namespace EndpointBindings.Json

/-- Take up digits while the significand stays below `2 ^ 64`; also how many were taken. -/
def absorb (significand : Nat) : List Char → Nat × Nat
  | [] => (significand, 0)
  | d :: ds =>
    let next := 10 * significand + (d.toNat - '0'.toNat)
    if next < Nat.pow 2 64 then
      let (s, taken) := absorb next ds
      (s, taken + 1)
    else (significand, 0)

/-- The value of a run of digits. -/
def digitsValue (ds : List Char) : Nat :=
  ds.foldl (fun n d => 10 * n + (d.toNat - '0'.toNat)) 0

/-- The parts of a literal. -/
structure Literal where
  negative : Bool
  whole : List Char
  fraction : List Char
  exponent : Option Int

/-- An exponent, when one follows; `none` when its digits are missing. -/
def scanExponent : List Char → Option (Option Int × List Char)
  | e :: rest =>
    if e = 'e' ∨ e = 'E' then
      let (negative, rest) := match rest with
        | '+' :: r => (false, r)
        | '-' :: r => (true, r)
        | r => (false, r)
      match rest.takeWhile Char.isDigit with
      | [] => none
      | ds =>
        let n : Int := digitsValue ds
        some (some (if negative then -n else n), rest.dropWhile Char.isDigit)
    else some (none, e :: rest)
  | [] => some (none, [])

/-- A fraction, when one follows; `none` when its digits are missing. -/
def scanFraction : List Char → Option (List Char × List Char)
  | '.' :: rest =>
    match rest.takeWhile Char.isDigit with
    | [] => none
    | ds => some (ds, rest.dropWhile Char.isDigit)
  | rest => some ([], rest)

/-- The integer digits: a lone zero, or digits that start with another one. -/
def scanWhole : List Char → Option (List Char × List Char)
  | '0' :: rest => some (['0'], rest)
  | d :: rest =>
    if d.isDigit then some (d :: rest.takeWhile Char.isDigit, rest.dropWhile Char.isDigit) else none
  | [] => none

/-- The literal at the front of a text. -/
def scanLiteral (cs : List Char) : Option (Literal × List Char) := do
  let (negative, rest) := match cs with
    | '-' :: r => (true, r)
    | r => (false, r)
  let (whole, rest) ← scanWhole rest
  let (fraction, rest) ← scanFraction rest
  let (exponent, rest) ← scanExponent rest
  return (⟨negative, whole, fraction, exponent⟩, rest)

/-- The number that a literal denotes. -/
def Literal.number? (l : Literal) : Option Number :=
  let (significand, taken) := absorb 0 l.whole
  let dropped := l.whole.length - taken
  let isInteger := l.fraction.isEmpty && l.exponent.isNone && dropped == 0
  if isInteger && !l.negative then some (.int significand)
  else if isInteger && significand ≠ 0 && significand ≤ Nat.pow 2 63 then some (.int (-significand))
  else
    let (significand, places) := absorb significand l.fraction
    let exponent : Int := dropped - places + l.exponent.getD 0
    (Decimal.Binary64.ofScaled l.negative significand exponent).map .float

end EndpointBindings.Json
