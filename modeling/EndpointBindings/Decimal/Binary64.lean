/-!
# Binary floating-point numbers

A finite number of the binary64 format, as the exact rational `mantissa · 2 ^ exponent` with a
sign.  A value is built by `nearest`, which rounds a quotient of natural numbers once, to the
nearest representable number and to the even one of two that are equally near; magnitudes beyond
the largest finite number have no value.  All arithmetic is on natural numbers, so that a reader of
this file sees every rounding there is.

Two readings of a decimal literal are offered.  `ofDecimal` rounds the exact value once.
`ofScaled` rounds three times: the digits to a number, the power of ten to a number, and their
product or quotient.  The second may miss the nearest number by one unit in the last place; which
of the two a format uses is the format's business.
-/

namespace EndpointBindings.Decimal

/-- A finite binary64 number.  In a normal form, which `nearest` builds, the mantissa is below
`2 ^ 53`, the exponent is at least `-1074`, and the mantissa is at least `2 ^ 52` unless the
exponent is `-1074`. -/
structure Binary64 where
  negative : Bool
  mantissa : Nat
  exponent : Int
deriving DecidableEq, Repr, Inhabited

namespace Binary64

/-- Round a quotient to a natural number, a half to the even neighbour. -/
def roundHalfEven (num den : Nat) : Nat :=
  let q := num / den
  let twice := 2 * (num % den)
  if den < twice ∨ (twice = den ∧ q % 2 = 1) then q + 1 else q

/-- The quotient `num / (den · 2 ^ e)`, as a numerator and a denominator. -/
def scaleDown (num den : Nat) (e : Int) : Nat × Nat :=
  if 0 ≤ e then (num, den * Nat.pow 2 e.toNat) else (num * Nat.pow 2 (-e).toNat, den)

/-- The exponent of the leading binary digit of a quotient of positive numbers. -/
def leadingExponent (num den : Nat) : Int :=
  let guess : Int := (Nat.log2 num : Int) - (Nat.log2 den : Int)
  let (n, d) := scaleDown num den guess
  if d ≤ n then guess else guess - 1

/-- The number nearest to `± num / den`; none when it would exceed every finite number. -/
def nearest (negative : Bool) (num den : Nat) : Option Binary64 :=
  if num = 0 then some ⟨negative, 0, -1074⟩
  else
    let e := max (leadingExponent num den - 52) (-1074)
    let (n, d) := scaleDown num den e
    let m := roundHalfEven n d
    let (m, e) := if m = Nat.pow 2 53 then (Nat.pow 2 52, e + 1) else (m, e)
    if 971 < e then none else some ⟨negative, m, e⟩

/-- The magnitude as a numerator and a denominator. -/
def magnitude (x : Binary64) : Nat × Nat :=
  if 0 ≤ x.exponent then (x.mantissa * Nat.pow 2 x.exponent.toNat, 1)
  else (x.mantissa, Nat.pow 2 (-x.exponent).toNat)

/-- Zero, with a sign. -/
def zero (negative : Bool) : Binary64 := ⟨negative, 0, -1074⟩

/-- The same magnitude under a given sign. -/
def withSign (x : Binary64) (negative : Bool) : Binary64 := { x with negative }

/-- The product, rounded; none on overflow. -/
def mul? (x y : Binary64) : Option Binary64 :=
  let (a, b) := x.magnitude
  let (c, d) := y.magnitude
  nearest (x.negative != y.negative) (a * c) (b * d)

/-- The quotient, rounded; none on overflow or when the divisor is zero. -/
def div? (x y : Binary64) : Option Binary64 :=
  let (a, b) := x.magnitude
  let (c, d) := y.magnitude
  if c = 0 then none else nearest (x.negative != y.negative) (a * d) (b * c)

/-- The number nearest to `± digits · 10 ^ exponent`; none on overflow. -/
def ofDecimal (negative : Bool) (digits : Nat) (exponent : Int) : Option Binary64 :=
  let size : Int := (Nat.toDigits 10 digits).length
  -- far outside the range the power of ten is not worth computing
  if digits = 0 ∨ size + exponent < -330 then some (zero negative)
  else if 310 < size + exponent then none
  else if 0 ≤ exponent then nearest negative (digits * Nat.pow 10 exponent.toNat) 1
  else nearest negative digits (Nat.pow 10 (-exponent).toNat)

/-- The largest power of ten that a number holds. -/
def maxPower : Nat := 308

/-- The number nearest to a power of ten. -/
def tenTo (power : Nat) : Option Binary64 := nearest false (Nat.pow 10 power) 1

/-- Divide by `10 ^ 308` a number of times, rounding each time; zero stays zero. -/
def shrink (x : Binary64) : Nat → Option Binary64
  | 0 => some x
  | steps + 1 =>
    if x.mantissa = 0 then some x
    else (tenTo maxPower).bind x.div? |>.bind (shrink · steps)

/-- Scale a magnitude by a power of ten.  Powers beyond `maxPower` overflow upwards; downwards they
are taken in steps of `10 ^ 308` until at most one such step remains. -/
def scaleByTen (x : Binary64) (exponent : Int) : Option Binary64 :=
  if x.mantissa = 0 then some x
  else if 0 ≤ exponent then
    if exponent.toNat ≤ maxPower then (tenTo exponent.toNat).bind x.mul? else none
  else
    let power := (-exponent).toNat
    let steps := (power - 1) / maxPower
    (shrink x steps).bind fun y => (tenTo (power - steps * maxPower)).bind y.div?

/-- `± digits · 10 ^ exponent`, with the digits, the power of ten and the result each rounded;
none on overflow. -/
def ofScaled (negative : Bool) (digits : Nat) (exponent : Int) : Option Binary64 :=
  (nearest false digits 1).bind fun x =>
    (scaleByTen x exponent).map (·.withSign negative)

/-! ## Laws of rounding -/

/-- Rounding a quotient misses it by at most half a unit. -/
theorem roundHalfEven_near (num den : Nat) (h : 0 < den) :
    2 * num ≤ 2 * den * roundHalfEven num den + den ∧
      2 * den * roundHalfEven num den ≤ 2 * num + den := by
  have hd := Nat.div_add_mod num den
  have hm := Nat.mod_lt num h
  have hmul : 2 * den * (num / den) = 2 * (den * (num / den)) := by rw [Nat.mul_assoc]
  have hmul' : 2 * den * (num / den + 1) = 2 * (den * (num / den)) + 2 * den := by
    rw [Nat.mul_add, Nat.mul_one, hmul]
  simp only [roundHalfEven]
  split
  · rw [hmul']; omega
  · rw [hmul]; omega

/-- Of two equally near numbers the even one is taken. -/
theorem roundHalfEven_even {num den : Nat} (h : 2 * (num % den) = den) :
    roundHalfEven num den % 2 = 0 := by
  simp only [roundHalfEven, h]
  split
  · next hq => rcases hq with hq | ⟨_, hq⟩ <;> omega
  · next hq =>
    simp only [true_and, not_or] at hq
    omega

end Binary64

end EndpointBindings.Decimal
