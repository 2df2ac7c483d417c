import EndpointBindings.Json.Literal
import EndpointBindings.Text.Escape
import EndpointBindings.Yaml.Value

/-!
# What scalars denote

A scalar without quotes and without a tag denotes a null, a boolean, an integer or a binary number
when it is spelled as one, and else the string that it is.

Integers are decimal, or written after `0x`, `0o` or `0b`; a decimal with a superfluous leading zero
is a string.  An integer that 64 bits do not hold but 128 bits do is refused.  A longer one, and every
other number, is a binary number; a spelling that would overflow is a string again.
-/

namespace EndpointBindings.Yaml

/-- The words for null. -/
def isNullWord (s : String) : Bool := s = "null" || s = "Null" || s = "NULL" || s = "~"

/-- The truth value that a word denotes. -/
def boolOf? (s : String) : Option Bool :=
  if s = "true" || s = "True" || s = "TRUE" then some true
  else if s = "false" || s = "False" || s = "FALSE" then some false
  else none

/-! ## Integers -/

/-- The value of a digit in a base up to sixteen. -/
def digitIn? (base : Nat) (c : Char) : Option Nat :=
  (Text.hexValue? c).filter (· < base)

/-- The number that digits write in a base; none without digits. -/
def numberIn? (base : Nat) (ds : List Char) : Option Nat :=
  if ds.isEmpty then none else ds.foldlM (fun n d => (digitIn? base d).map (base * n + ·)) 0

/-- A magnitude after a mark of its base. -/
def markedNumber? : List Char → Option Nat
  | '0' :: 'x' :: ds => numberIn? 16 ds
  | '0' :: 'o' :: ds => numberIn? 8 ds
  | '0' :: 'b' :: ds => numberIn? 2 ds
  | _ => none

/-- Digits alone, more than one of them and the first a zero. -/
def hasLeadingZero (ds : List Char) : Bool :=
  1 < ds.length && ds.head? = some '0' && ds.all Char.isDigit

/-- A magnitude in any base. -/
def magnitude? (ds : List Char) : Option Nat :=
  markedNumber? ds <|> if hasLeadingZero ds then none else numberIn? 10 ds

/-- The sign of a text, when it has one, and the rest. -/
def splitSign : List Char → Option Char × List Char
  | '+' :: rest => (some '+', rest)
  | '-' :: rest => (some '-', rest)
  | rest => (none, rest)

/-- An integer of any size up to 128 bits, signed or not. -/
def integer? (cs : List Char) : Option Int :=
  match splitSign cs with
  | (some '-', rest) => (magnitude? rest).bind fun n => if n ≤ Nat.pow 2 127 then some (-(n : Int)) else none
  | (_, rest) => (magnitude? rest).bind fun n => if n < Nat.pow 2 128 then some (n : Int) else none

/-- Whether 64 bits hold an integer, signed or not. -/
def fits64 (i : Int) : Bool :=
  match i with
  | .ofNat n => n < Nat.pow 2 64
  | .negSucc n => n < Nat.pow 2 63

/-! ## Binary numbers -/

/-- A decimal: digits with a point somewhere or none, and an optional exponent. -/
def decimal? (negative : Bool) (cs : List Char) : Option Decimal.Binary64 := do
  let whole := cs.takeWhile Char.isDigit
  let rest := cs.dropWhile Char.isDigit
  let (fraction, rest) := match rest with
    | '.' :: rest => (rest.takeWhile Char.isDigit, rest.dropWhile Char.isDigit)
    | rest => ([], rest)
  if whole.isEmpty && fraction.isEmpty then none
  let (exponent, rest) ← Json.scanExponent rest
  if !rest.isEmpty then none
  Decimal.Binary64.ofDecimal negative (Json.digitsValue (whole ++ fraction))
    (exponent.getD 0 - fraction.length)

/-- The words for infinity, without a sign. -/
def isInfinityWord (cs : List Char) : Bool :=
  ["inf", "Inf", "INF"].any fun w => cs = '.' :: w.toList

/-- The words for what is not a number. -/
def isNanWord (cs : List Char) : Bool :=
  ["nan", "NaN", "NAN"].any fun w => cs = '.' :: w.toList

/-- A binary number, with the words for what is not finite. -/
def float? (cs : List Char) : Option Number :=
  match splitSign cs with
  | (some '+', rest) =>
    if isInfinityWord rest then some (.infinite false)
    else (decimal? false rest).map .finite
  | (some _, rest) =>
    if isInfinityWord rest then some (.infinite true) else (decimal? true rest).map .finite
  | (none, rest) =>
    if isInfinityWord rest then some (.infinite false)
    else if isNanWord rest then some .nan
    else (decimal? false rest).map .finite

/-! ## Scalars -/

/-- The value of an integer; none when it is too large for 64 bits. -/
def integerValue? (i : Int) : Option Value := if fits64 i then some (.number (.int i)) else none

/-- The value of a scalar without quotes and tag. -/
def plainValue? (s : String) : Option Value :=
  let cs := s.toList
  if cs.isEmpty || isNullWord s then some .null
  else
    match boolOf? s, integer? cs with
    | some b, _ => some (.bool b)
    | none, some i => integerValue? i
    | none, none =>
      if hasLeadingZero (splitSign cs).2 then some (.string s)
      else
        match float? cs with
        | some n => some (.number n)
        | none => some (.string s)

/-- The value of a scalar under a tag that fixes its kind: none when it is not of that kind. -/
def scalarValue? (tag : Option String) (s : String) (isPlain : Bool) : Option Value :=
  match tag with
  | some "tag:yaml.org,2002:bool" => (boolOf? s).map .bool
  | some "tag:yaml.org,2002:int" => (integer? s.toList).bind integerValue?
  | some "tag:yaml.org,2002:float" => (float? s.toList).map .number
  | some "tag:yaml.org,2002:null" => if isNullWord s then some .null else none
  | some _ => some (.string s)
  | none => if isPlain then plainValue? s else some (.string s)

end EndpointBindings.Yaml
