import EndpointBindings.Decimal.Binary64

/-!
# The fewest digits that read back

Between a binary number and its neighbours lie many decimals.  `shortest` finds one with the fewest
digits among those that round to the number, and of these the nearest to it.

A grid is the multiples of a power of ten.  For one digit, two digits and so on, the two points of
the grid next to the number are tested against the interval of reals that round to it; the first
grid with a point inside wins.  If any point of a grid lies in the interval, one of those two does,
so nothing shorter is missed.  Seventeen digits always suffice, so the search ends with a hit.

The numbers are compared as integers: everything is scaled by one common denominator.
-/

namespace EndpointBindings.Decimal

/-- A decimal magnitude `digits · 10 ^ exponent`. -/
structure Digits where
  digits : Nat
  exponent : Int
deriving DecidableEq, Repr, Inhabited

namespace Binary64

/-- The reals that round to a number: `low / den` to `high / den`, the number being `mid / den`.
The ends belong to the interval when the mantissa is even. -/
structure Interval where
  low : Nat
  mid : Nat
  high : Nat
  den : Nat
  closed : Bool

/-- The rounding interval of a positive number.  The gap below a power of two is half the gap
above it, except at the smallest exponent. -/
def interval (x : Binary64) : Interval :=
  let below := if x.mantissa = Nat.pow 2 52 ∧ -1074 < x.exponent then 1 else 2
  let unit := if 0 ≤ x.exponent then Nat.pow 2 x.exponent.toNat else 1
  let den := if 0 ≤ x.exponent then 1 else Nat.pow 2 (-x.exponent).toNat
  { low := (4 * x.mantissa - below) * unit
    mid := 4 * x.mantissa * unit
    high := (4 * x.mantissa + 2) * unit
    den := 4 * den
    closed := x.mantissa % 2 = 0 }

/-- Whether `num / den'` lies in the interval, `den'` being the interval's denominator over
`scale`. -/
def Interval.holds (i : Interval) (num scale : Nat) : Bool :=
  if i.closed then i.low * scale ≤ num && num ≤ i.high * scale
  else i.low * scale < num && num < i.high * scale

/-- The point of the grid `10 ^ e` to take for the number, if one rounds to it. -/
def gridPoint? (i : Interval) (e : Int) : Option Nat :=
  -- `step` is the grid's width in units of `1 / (den · scale)`
  let scale := if 0 ≤ e then 1 else Nat.pow 10 (-e).toNat
  let step := if 0 ≤ e then i.den * Nat.pow 10 e.toNat else i.den
  let mid := i.mid * scale
  let down := mid / step
  let up := down + 1
  match i.holds (down * step) scale, i.holds (up * step) scale with
  | false, false => none
  | true, false => some down
  | false, true => some up
  | true, true =>
    let toDown := mid - down * step
    let toUp := up * step - mid
    if toDown < toUp then some down
    else if toUp < toDown then some up
    else if down % 2 = 0 then some down else some up

/-- How many places the decimal point is moved for every number to be above one. -/
def decimalShift : Nat := 400

/-- The exponent of the leading decimal digit of `num / den`, for magnitudes above
`10 ^ -decimalShift`. -/
def decimalExponent (num den : Nat) : Int :=
  ((Nat.toDigits 10 (num * Nat.pow 10 decimalShift / den)).length : Int) - (decimalShift + 1)

/-- The shortest decimal magnitude that rounds to the number's magnitude.  A hit cannot end in a
zero, for it would lie on the grid before; only the rollover to the next power of ten does. -/
def shortest (x : Binary64) : Digits :=
  if x.mantissa = 0 then ⟨0, 0⟩
  else
    let i := x.interval
    let lead := decimalExponent i.mid i.den
    let hit := (List.range' 1 17).findSome? fun (n : Nat) =>
      let e := lead - (n : Int) + 1
      (gridPoint? i e).map fun d => if d = Nat.pow 10 n then (⟨1, lead + 1⟩ : Digits) else ⟨d, e⟩
    hit.getD ⟨0, 0⟩

end Binary64

/-! ## Writing the digits

The digits are set out positionally, `0.00015` or `1500.0`, from `0.00001` up to sixteen digits
before the point, and with an exponent, `1.5e-7`, beyond.  Formats differ only in whether a positive
exponent carries a plus sign.  Every text has either a point or an exponent, so that it reads back
as a floating-point number and not as an integer.
-/

/-- The choice a format makes: how a positive exponent is written. -/
inductive Style where
  /-- `1e+20` -/
  | signed
  /-- `1e20` -/
  | bare
deriving DecidableEq, Repr

/-- Whether a number is set out positionally, given how many digits stand before the point; the
count is zero or negative for magnitudes below a tenth. -/
def isPositional (before : Int) : Bool := -5 < before && before ≤ 16

/-- A run of zeros, empty unless its length is positive. -/
def zeros (n : Int) : List Char := List.replicate n.toNat '0'

/-- Set out nonzero digits positionally, `before` of them standing before the point. -/
def positionalText (digits : List Char) (before : Int) : List Char :=
  if before ≤ 0 then '0' :: '.' :: zeros (-before) ++ digits
  else if digits.length ≤ before.toNat then
    digits ++ zeros (before - digits.length) ++ ['.', '0']
  else digits.take before.toNat ++ '.' :: digits.drop before.toNat

/-- Set out digits with an exponent. -/
def exponentText (style : Style) (digits : List Char) (exponent : Int) : List Char :=
  let mark := match digits with
    | d :: rest@(_ :: _) => d :: '.' :: rest
    | short => short
  let sign := if exponent < 0 then ['-'] else if style = .signed then ['+'] else []
  mark ++ 'e' :: sign ++ Nat.toDigits 10 exponent.natAbs

/-- The text of a number. -/
def Binary64.text (style : Style) (x : Binary64) : String :=
  let sign := if x.negative then ['-'] else []
  let body :=
    if x.mantissa = 0 then ['0', '.', '0']
    else
      let d := x.shortest
      let digits := Nat.toDigits 10 d.digits
      let before := d.exponent + digits.length
      if isPositional before then positionalText digits before
      else exponentText style digits (before - 1)
  String.ofList (sign ++ body)

end EndpointBindings.Decimal
