import EndpointBindings.Json.Basic
import Mathlib.Algebra.Group.Int.Defs
import Mathlib.Algebra.Group.Nat.Defs

/-!
# Numerals

A numeral is a minus sign or none, digits, and then a point with digits and an exponent, either of
which may be missing.  It denotes a rational number, and the text of a number of a document is a
numeral for the decimal that the number is written as (`readNumeral?_text`): an integer for itself,
and a binary number for the shortest decimal that rounds to it.
-/

namespace EndpointBindings.Validator

open Decimal (positionalText exponentText)

/-- The number `n · 10 ^ e`. -/
def decimal (n e : Int) : Rat := mkRat (n * Nat.pow 10 e.toNat) (Nat.pow 10 (-e).toNat)

/-! ## Reading -/

/-- The value of digits. -/
def digitsValue (ds : List Char) : Nat := Nat.ofDigitChars 10 ds 0

/-- Digits, at least one. -/
def readDigits? (ds : List Char) : Option Int :=
  if !ds.isEmpty && ds.all Char.isDigit then some (digitsValue ds) else none

/-- The exponent at the end of a numeral. -/
def readExponent? : List Char → Option Int
  | [] => some 0
  | 'e' :: '+' :: ds => readDigits? ds
  | 'e' :: '-' :: ds => (readDigits? ds).map (- ·)
  | 'e' :: ds => readDigits? ds
  | _ => none

/-- The digits behind a point, and what follows them. -/
def splitFraction : List Char → List Char × List Char
  | '.' :: cs => (cs.takeWhile Char.isDigit, cs.dropWhile Char.isDigit)
  | cs => ([], cs)

/-- A numeral without its sign: all digits as one number, and the power of ten that goes with it. -/
def readMagnitude? (cs : List Char) : Option (Int × Int) :=
  let whole := cs.takeWhile Char.isDigit
  let (fraction, rest) := splitFraction (cs.dropWhile Char.isDigit)
  if whole.isEmpty then none
  else (readExponent? rest).map fun e => (digitsValue (whole ++ fraction), e - fraction.length)

/-- The number that a numeral denotes. -/
def readNumeral? : List Char → Option Rat
  | '-' :: cs => (readMagnitude? cs).map fun (n, e) => decimal (-n) e
  | cs => (readMagnitude? cs).map fun (n, e) => decimal n e

/-- The decimal that a number of a document is written as. -/
def writtenValue : Number → Rat
  | .int i => decimal i 0
  | .float x =>
      let d := x.shortest
      decimal (if x.negative then -d.digits else d.digits) d.exponent

/-! ## The characters of numerals -/

def isNumeralStart (c : Char) : Bool := c.isDigit || c = '-'

def isNumeralChar (c : Char) : Bool := isNumeralStart c || c = '.' || c = 'e' || c = '+'

theorem isNumeralChar_of_isDigit {c : Char} (h : c.isDigit = true) : isNumeralChar c = true := by
  simp [isNumeralChar, isNumeralStart, h]

theorem isNumeralChar_of_readDigits? {ds : List Char} {n : Int} (h : readDigits? ds = some n) :
    ∀ c ∈ ds, isNumeralChar c = true := by
  rw [readDigits?] at h
  split at h
  · next hdigits =>
      rw [Bool.and_eq_true] at hdigits
      exact fun c hc => isNumeralChar_of_isDigit (List.all_eq_true.1 hdigits.2 c hc)
  · cases h

theorem isNumeralChar_of_readExponent? {cs : List Char} {n : Int} (h : readExponent? cs = some n) :
    ∀ c ∈ cs, isNumeralChar c = true := by
  unfold readExponent? at h
  split at h
  · exact fun c hc => absurd hc List.not_mem_nil
  · exact List.forall_mem_cons.2 ⟨rfl, List.forall_mem_cons.2 ⟨rfl, isNumeralChar_of_readDigits? h⟩⟩
  · obtain ⟨m, hm, -⟩ := Option.map_eq_some_iff.1 h
    exact List.forall_mem_cons.2 ⟨rfl, List.forall_mem_cons.2 ⟨rfl, isNumeralChar_of_readDigits? hm⟩⟩
  · exact List.forall_mem_cons.2 ⟨rfl, isNumeralChar_of_readDigits? h⟩
  · cases h

theorem isNumeralChar_of_dropWhile {cs : List Char}
    (h : ∀ c ∈ cs.dropWhile Char.isDigit, isNumeralChar c = true) :
    ∀ c ∈ cs, isNumeralChar c = true := by
  induction cs with
  | nil => exact h
  | cons c cs ih =>
      cases hc : c.isDigit with
      | true =>
          rw [List.dropWhile_cons_of_pos hc] at h
          exact List.forall_mem_cons.2 ⟨isNumeralChar_of_isDigit hc, ih h⟩
      | false =>
          rwa [List.dropWhile_cons_of_neg (by simp [hc])] at h

/-- A numeral without a sign starts with a digit and goes on with characters of numerals. -/
theorem isNumeralChar_of_readMagnitude? {cs : List Char} {v : Int × Int}
    (h : readMagnitude? cs = some v) :
    ∃ c cs', cs = c :: cs' ∧ c.isDigit = true ∧ ∀ b ∈ cs, isNumeralChar b = true := by
  cases cs with
  | nil => cases h
  | cons c cs =>
      rw [readMagnitude?] at h
      cases hc : c.isDigit with
      | false => simp [hc] at h
      | true =>
          refine ⟨c, cs, rfl, hc, isNumeralChar_of_dropWhile ?_⟩
          dsimp only at h
          split at h
          · cases h
          · obtain ⟨e, he, -⟩ := Option.map_eq_some_iff.1 h
            generalize (c :: cs).dropWhile Char.isDigit = rest at he
            unfold splitFraction at he
            split at he
            · exact List.forall_mem_cons.2
                ⟨rfl, isNumeralChar_of_dropWhile (isNumeralChar_of_readExponent? he)⟩
            · exact isNumeralChar_of_readExponent? he

/-- So a numeral can be told from what follows it by its characters alone. -/
theorem isNumeralChar_of_readNumeral? {cs : List Char} {v : Rat} (h : readNumeral? cs = some v) :
    ∃ c cs', cs = c :: cs' ∧ isNumeralStart c = true ∧ ∀ b ∈ cs', isNumeralChar b = true := by
  unfold readNumeral? at h
  split at h
  · next cs =>
      obtain ⟨_, hm, -⟩ := Option.map_eq_some_iff.1 h
      obtain ⟨_, _, -, -, hall⟩ := isNumeralChar_of_readMagnitude? hm
      exact ⟨'-', cs, rfl, rfl, hall⟩
  · obtain ⟨_, hm, -⟩ := Option.map_eq_some_iff.1 h
    obtain ⟨c, cs', rfl, hc, hall⟩ := isNumeralChar_of_readMagnitude? hm
    exact ⟨c, cs', rfl, by simp [isNumeralStart, hc], (List.forall_mem_cons.1 hall).2⟩

/-! ## Digits -/

/-- `ds` are digits, at least one, and `d` is their value. -/
structure DigitsOf (ds : List Char) (d : Nat) : Prop where
  digit : ∀ c ∈ ds, c.isDigit = true
  ne_nil : ds ≠ []
  value : digitsValue ds = d

theorem digitsOf_toDigits (n : Nat) : DigitsOf (Nat.toDigits 10 n) n where
  digit _ h := Nat.isDigit_of_mem_toDigits (by decide) (by decide) h
  ne_nil := Nat.toDigits_ne_nil
  value := Nat.ofDigitChars_ten_toDigits

theorem digitsOf_zero : DigitsOf ['0'] 0 := digitsOf_toDigits 0

theorem isDigit_of_mem_zeros {k : Nat} {c : Char} (h : c ∈ List.replicate k '0') :
    c.isDigit = true := by
  rw [List.eq_of_mem_replicate h]
  rfl

theorem DigitsOf.append_zeros {ds : List Char} {d : Nat} (h : DigitsOf ds d) (k : Nat) :
    DigitsOf (ds ++ List.replicate k '0') (d * 10 ^ k) where
  digit c hc := (List.mem_append.1 hc).elim (h.digit c) isDigit_of_mem_zeros
  ne_nil := List.append_ne_nil_of_left_ne_nil h.ne_nil _
  value := by
    rw [digitsValue, Nat.ofDigitChars_append, Nat.ofDigitChars_replicate_zero, Nat.mul_comm,
      ← h.value]
    rfl

theorem DigitsOf.zeros_append {ds : List Char} {d : Nat} (h : DigitsOf ds d) (k : Nat) :
    DigitsOf (List.replicate k '0' ++ ds) d where
  digit c hc := (List.mem_append.1 hc).elim isDigit_of_mem_zeros (h.digit c)
  ne_nil := List.append_ne_nil_of_right_ne_nil _ h.ne_nil
  value := by
    rw [digitsValue, Nat.ofDigitChars_append, Nat.ofDigitChars_replicate_zero, Nat.mul_zero]
    exact h.value

theorem DigitsOf.readDigits? {ds : List Char} {d : Nat} (h : DigitsOf ds d) :
    readDigits? ds = some (d : Int) := by
  rw [Validator.readDigits?, List.all_eq_true.2 h.digit, List.isEmpty_eq_false_iff.2 h.ne_nil,
    h.value]
  rfl

/-- Zeros behind the digits are a power of ten. -/
theorem decimal_shift (n : Int) (k : Nat) : decimal (n * 10 ^ (k + 1)) (-1) = decimal n k := by
  have hten : mkRat (n * 10 ^ k * (10 : Nat)) (1 * 10) = mkRat (n * 10 ^ k) 1 :=
    Rat.mkRat_mul_right (by decide)
  have hleft : decimal (n * 10 ^ (k + 1)) (-1) = mkRat (n * 10 ^ k * (10 : Nat)) (1 * 10) := by
    rw [decimal, Int.pow_succ, ← Int.mul_assoc]
    simp
  have hright : decimal n k = mkRat (n * 10 ^ k) 1 := by
    simp [decimal]
  rw [hleft, hten, hright]

/-! ## The forms of a numeral -/

section

variable {whole fraction rest : List Char} (hwhole : ∀ c ∈ whole, c.isDigit = true)
  (hne : whole ≠ [])

include hwhole hne

/-- Digits and then an exponent or nothing. -/
theorem readMagnitude?_whole (hrest : ∀ c ∈ rest.head?, c.isDigit = false ∧ c ≠ '.') :
    readMagnitude? (whole ++ rest) =
      (readExponent? rest).map fun e => ((digitsValue whole : Int), e) := by
  have hstop : rest.takeWhile Char.isDigit = [] ∧ rest.dropWhile Char.isDigit = rest ∧
      splitFraction rest = ([], rest) := by
    cases rest with
    | nil => exact ⟨rfl, rfl, rfl⟩
    | cons c rest =>
        obtain ⟨hdigit, hpoint⟩ := hrest c rfl
        refine ⟨by simp [hdigit], by simp [hdigit], ?_⟩
        rw [splitFraction]
        intro cs h
        cases h
        exact hpoint rfl
  obtain ⟨htake, hdrop, hsplit⟩ := hstop
  rw [readMagnitude?, List.takeWhile_append_of_pos hwhole, List.dropWhile_append_of_pos hwhole,
    htake, hdrop, hsplit]
  simp [hne]

/-- Digits, a point and digits, and then an exponent or nothing. -/
theorem readMagnitude?_point (hfraction : ∀ c ∈ fraction, c.isDigit = true)
    (hrest : ∀ c ∈ rest.head?, c.isDigit = false) :
    readMagnitude? (whole ++ '.' :: (fraction ++ rest)) =
      (readExponent? rest).map fun e =>
        ((digitsValue (whole ++ fraction) : Int), e - (fraction.length : Int)) := by
  have hstop : rest.takeWhile Char.isDigit = [] ∧ rest.dropWhile Char.isDigit = rest := by
    cases rest with
    | nil => exact ⟨rfl, rfl⟩
    | cons c rest => exact ⟨by simp [hrest c rfl], by simp [hrest c rfl]⟩
  rw [readMagnitude?, List.takeWhile_append_of_pos hwhole, List.dropWhile_append_of_pos hwhole]
  have htake : ('.' :: (fraction ++ rest)).takeWhile Char.isDigit = [] := rfl
  have hdrop : ('.' :: (fraction ++ rest)).dropWhile Char.isDigit = '.' :: (fraction ++ rest) := rfl
  rw [htake, hdrop, splitFraction, List.takeWhile_append_of_pos hfraction,
    List.dropWhile_append_of_pos hfraction, hstop.1, hstop.2]
  simp [hne]

end

/-! ## Texts of numbers -/

/-- What a text without a sign has to read as: the number `d · 10 ^ x`, under either sign. -/
def ReadsAs (cs : List Char) (d x : Int) : Prop :=
  ∃ n e, readMagnitude? cs = some (n, e) ∧ ∀ sign : Int, decimal (sign * n) e = decimal (sign * d) x

theorem DigitsOf.readsAs {ds : List Char} {d : Nat} (h : DigitsOf ds d) : ReadsAs ds d 0 := by
  refine ⟨d, 0, ?_, fun _ => rfl⟩
  rw [← List.append_nil ds, readMagnitude?_whole h.digit h.ne_nil (by simp), h.value]
  rfl

/-- `0.000ddd` -/
theorem DigitsOf.readsAs_below {ds : List Char} {d : Nat} (h : DigitsOf ds d) (k : Nat) :
    ReadsAs ('0' :: '.' :: (List.replicate k '0' ++ ds)) d (-(k + ds.length)) := by
  have hfraction := h.zeros_append k
  refine ⟨d, -(k + ds.length), ?_, fun _ => rfl⟩
  have htext : '0' :: '.' :: (List.replicate k '0' ++ ds) =
      ['0'] ++ '.' :: (List.replicate k '0' ++ ds ++ []) := by simp
  have hvalue : digitsValue (['0'] ++ (List.replicate k '0' ++ ds)) = d :=
    (hfraction.zeros_append 1).value
  rw [htext, readMagnitude?_point digitsOf_zero.digit digitsOf_zero.ne_nil hfraction.digit (by simp),
    hvalue]
  simp [readExponent?]

/-- `ddd000.0` -/
theorem DigitsOf.readsAs_above {ds : List Char} {d : Nat} (h : DigitsOf ds d) (k : Nat) :
    ReadsAs (ds ++ List.replicate k '0' ++ ['.', '0']) d k := by
  have hwhole := h.append_zeros k
  refine ⟨d * 10 ^ (k + 1), -1, ?_, fun sign => ?_⟩
  · have htext : ds ++ List.replicate k '0' ++ ['.', '0'] =
        (ds ++ List.replicate k '0') ++ '.' :: (['0'] ++ []) := rfl
    have hvalue : digitsValue (ds ++ List.replicate k '0' ++ ['0']) = d * 10 ^ (k + 1) :=
      (hwhole.append_zeros 1).value.trans (Nat.mul_assoc ..)
    rw [htext, readMagnitude?_point hwhole.digit hwhole.ne_nil digitsOf_zero.digit (by simp), hvalue]
    simp [readExponent?]
  · rw [← Int.mul_assoc, decimal_shift]

/-- `dd.ddd` -/
theorem DigitsOf.readsAs_between {ds : List Char} {d n : Nat} (h : DigitsOf ds d) (hpos : 0 < n)
    (hlong : n < ds.length) : ReadsAs (ds.take n ++ '.' :: ds.drop n) d (n - ds.length) := by
  have hne : ds.take n ≠ [] := by
    refine List.ne_nil_of_length_pos ?_
    rw [List.length_take]
    omega
  refine ⟨d, n - ds.length, ?_, fun _ => rfl⟩
  rw [← List.append_nil (ds.drop n),
    readMagnitude?_point (fun c hc => h.digit c (List.mem_of_mem_take hc)) hne
      (fun c hc => h.digit c (List.mem_of_mem_drop hc)) (by simp),
    List.take_append_drop, h.value]
  simp only [readExponent?, Option.map_some, List.length_drop]
  congr 2
  omega

theorem DigitsOf.readsAs_positional {ds : List Char} {d : Nat} (h : DigitsOf ds d) (x : Int) :
    ReadsAs (positionalText ds (x + ds.length)) d x := by
  have hlength := List.length_pos_iff.2 h.ne_nil
  rw [positionalText]
  split
  · have hx : x = -((-(x + ds.length)).toNat + ds.length : Int) := by omega
    have hbelow := h.readsAs_below (-(x + ds.length)).toNat
    rw [← hx] at hbelow
    exact hbelow
  · split
    · have hx : x = (x + ds.length - ds.length).toNat := by omega
      have habove := h.readsAs_above (x + ds.length - ds.length).toNat
      rw [← hx] at habove
      exact habove
    · have hx : x = (x + ds.length).toNat - ds.length := by omega
      have hbetween := h.readsAs_between (n := (x + ds.length).toNat) (by omega) (by omega)
      rw [← hx] at hbetween
      exact hbetween

theorem readExponent?_text (x : Int) :
    readExponent? ('e' :: ((if x < 0 then ['-'] else ['+']) ++ Nat.toDigits 10 x.natAbs)) =
      some x := by
  split
  · show (readDigits? (Nat.toDigits 10 x.natAbs)).map (- ·) = some x
    rw [(digitsOf_toDigits _).readDigits?, Option.map_some]
    congr 1
    omega
  · show readDigits? (Nat.toDigits 10 x.natAbs) = some x
    rw [(digitsOf_toDigits _).readDigits?]
    congr 1
    omega

/-- `d.ddde-7` -/
theorem DigitsOf.readsAs_exponent {ds : List Char} {d : Nat} (h : DigitsOf ds d) (x : Int) :
    ReadsAs (exponentText .signed ds x) d (x + 1 - ds.length) := by
  refine ⟨d, x + 1 - ds.length, ?_, fun _ => rfl⟩
  match ds, h with
  | [], h => exact absurd rfl h.ne_nil
  | [c], h =>
      have htext : exponentText .signed [c] x =
          [c] ++ 'e' :: ((if x < 0 then ['-'] else ['+']) ++ Nat.toDigits 10 x.natAbs) := rfl
      rw [htext, readMagnitude?_whole h.digit h.ne_nil (by simp), readExponent?_text, h.value]
      simp
  | c :: c' :: ds, h =>
      have htext : exponentText .signed (c :: c' :: ds) x = [c] ++ '.' :: ((c' :: ds) ++
          'e' :: ((if x < 0 then ['-'] else ['+']) ++ Nat.toDigits 10 x.natAbs)) := by
        simp [exponentText]
      have hvalue : digitsValue ([c] ++ c' :: ds) = d := h.value
      rw [htext, readMagnitude?_point (fun b hb => h.digit b (List.mem_append_left (c' :: ds) hb))
        (by simp) (fun b hb => h.digit b (List.mem_cons_of_mem c hb)) (by simp),
        readExponent?_text, hvalue]
      simp only [Option.map_some, List.length_cons]
      congr 2
      omega

/-! ## The text of a number is a numeral for it -/

theorem ReadsAs.readNumeral? {cs : List Char} {d x : Int} (h : ReadsAs cs d x) (negative : Bool) :
    readNumeral? ((if negative then ['-'] else []) ++ cs) =
      some (decimal (if negative then -d else d) x) := by
  obtain ⟨n, e, hread, hvalue⟩ := h
  cases negative with
  | true =>
      have hv := hvalue (-1)
      rw [Int.neg_one_mul, Int.neg_one_mul] at hv
      show (readMagnitude? cs).map (fun (n, e) => decimal (-n) e) = _
      rw [hread]
      exact congrArg some hv
  | false =>
      have hv := hvalue 1
      rw [Int.one_mul, Int.one_mul] at hv
      show Validator.readNumeral? cs = _
      rw [Validator.readNumeral?, hread]
      · exact congrArg some hv
      · rintro cs' rfl
        -- a minus sign is no magnitude
        simp [readMagnitude?] at hread

theorem readNumeral?_intText (i : Int) : readNumeral? (intText i).toList = some (decimal i 0) := by
  have h := (digitsOf_toDigits i.natAbs).readsAs.readNumeral? (decide (i < 0))
  simp only [decide_eq_true_eq] at h
  rw [intText, String.toList_ofList, h]
  congr 2
  split <;> omega

theorem readNumeral?_floatText (x : Decimal.Binary64) :
    readNumeral? (x.text .signed).toList = some (writtenValue (.float x)) := by
  rw [Decimal.Binary64.text, String.toList_ofList]
  refine ReadsAs.readNumeral? ?_ x.negative
  split
  · next hzero =>
      have hshortest : x.shortest = ⟨0, 0⟩ := by rw [Decimal.Binary64.shortest, if_pos hzero]
      rw [hshortest]
      exact digitsOf_zero.readsAs_above 0
  · have hdigits := digitsOf_toDigits x.shortest.digits
    dsimp only
    split
    · exact hdigits.readsAs_positional x.shortest.exponent
    · have h := hdigits.readsAs_exponent
        (x.shortest.exponent + (Nat.toDigits 10 x.shortest.digits).length - 1)
      have he : x.shortest.exponent + (Nat.toDigits 10 x.shortest.digits).length - 1 + 1 -
          (Nat.toDigits 10 x.shortest.digits).length = x.shortest.exponent := by omega
      rw [he] at h
      exact h

/-- **The text of a number is a numeral**, and denotes the decimal that the number is written as. -/
theorem readNumeral?_text (n : Number) : readNumeral? n.text.toList = some (writtenValue n) := by
  cases n with
  | int i => exact readNumeral?_intText i
  | float x => exact readNumeral?_floatText x

end EndpointBindings.Validator
