import EndpointBindings.Decimal.Shortest
import Mathlib.Algebra.Order.Field.Power
import Mathlib.Tactic.Linarith
import Mathlib.Tactic.NormNum
import Mathlib.Tactic.Positivity
import Mathlib.Tactic.Ring

/-!
# Which quotients round to a number

A quotient of natural numbers rounds to a number exactly when it lies in the rounding interval of
the number (`nearest_eq_some_iff`).  The two are written down apart from each other: `nearest` finds
an exponent and rounds, the interval is computed from a mantissa and an exponent that are there.

| | |
| :-- | :-- |
| `Rounds q m` | `m` is nearest to `q`, and even if another is equally near |
| `Scale v e` | `e` is the exponent of the numbers next to `v` |
| `Normal x` | the form of a number that is not zero |
| `Interval.Contains i v` | `v` lies in the interval, the ends counting if it is closed |
| `WellFormed x` | the form of every number that is built (`wellFormed_of_ofDecimal`, `_ofScaled`) |

The exponent is the same on both sides, since a magnitude has one scale only (`Scale.unique`), except
just below a power of two: there `nearest` takes the smaller unit, rounds up to `2 ^ 53` of it and
turns that into `2 ^ 52` of the next.  This is the lower quarter of the interval of such a power.
-/

namespace EndpointBindings.Decimal.Binary64

/-! ## Rounding to a natural number -/

/-- A natural number nearest to a rational, and the even one if two are. -/
structure Rounds (q : ℚ) (m : ℕ) : Prop where
  above : (m : ℚ) - 1 / 2 ≤ q
  below : q ≤ (m : ℚ) + 1 / 2
  tie : q = (m : ℚ) - 1 / 2 ∨ q = (m : ℚ) + 1 / 2 → m % 2 = 0

theorem Rounds.unique {q : ℚ} {m m' : ℕ} (h : Rounds q m) (h' : Rounds q m') : m = m' := by
  -- two that differ are neighbours with `q` halfway between them, and both would be even
  have hapart {a b : ℕ} (ha : Rounds q a) (hb : Rounds q b) : ¬ a < b := by
    intro hlt
    have hle : (a : ℚ) + 1 ≤ b := by exact_mod_cast hlt
    have hq : q = (a : ℚ) + 1 / 2 := by linarith [ha.below, hb.above]
    have hq' : q = (b : ℚ) - 1 / 2 := by linarith [ha.below, hb.above]
    have hb' : b = a + 1 := by
      have : (b : ℚ) = a + 1 := by linarith
      exact_mod_cast this
    have hae := ha.tie (.inr hq)
    have hbe := hb.tie (.inl hq')
    omega
  exact Nat.le_antisymm (Nat.le_of_not_lt (hapart h' h)) (Nat.le_of_not_lt (hapart h h'))

theorem rounds_roundHalfEven (num : ℕ) {den : ℕ} (hden : 0 < den) :
    Rounds ((num : ℚ) / den) (roundHalfEven num den) := by
  have hd : (0 : ℚ) < den := by exact_mod_cast hden
  obtain ⟨hlow, hhigh⟩ := roundHalfEven_near num den hden
  have hlow' : 2 * (num : ℚ) ≤ 2 * den * roundHalfEven num den + den := by exact_mod_cast hlow
  have hhigh' : 2 * (den : ℚ) * roundHalfEven num den ≤ 2 * num + den := by exact_mod_cast hhigh
  refine ⟨?_, ?_, fun htie => ?_⟩
  · rw [le_div_iff₀ hd]
    linarith
  · rw [div_le_iff₀ hd]
    linarith
  · apply roundHalfEven_even
    -- twice the quotient is an odd number, so the remainder is half the divisor
    obtain ⟨k, hk⟩ : ∃ k : ℤ, 2 * (num : ℚ) = den * (2 * k + 1) := by
      rcases htie with h | h
      · refine ⟨roundHalfEven num den - 1, ?_⟩
        rw [div_eq_iff hd.ne'] at h
        push_cast
        linarith
      · refine ⟨roundHalfEven num den, ?_⟩
        rw [div_eq_iff hd.ne'] at h
        push_cast
        linarith
    have hk' : 2 * (num : ℤ) = den + 2 * den * k := by
      have : 2 * (num : ℤ) = den * (2 * k + 1) := by exact_mod_cast hk
      linarith
    have hmod : 2 * (num : ℤ) % (2 * den) = den := by
      rw [hk', Int.add_mul_emod_self_left, Int.emod_eq_of_lt (by omega) (by omega)]
    rw [Int.mul_emod_mul_of_pos _ _ (by norm_num)] at hmod
    exact_mod_cast hmod

/-! ## The exponent of a quotient -/

theorem cast_pow_toNat (b : ℕ) {e : ℤ} (he : 0 ≤ e) : ((Nat.pow b e.toNat : ℕ) : ℚ) = (b : ℚ) ^ e := by
  rw [Nat.pow_eq, Nat.cast_pow, ← zpow_natCast, Int.toNat_of_nonneg he]

section

variable {num den : ℕ}

theorem scaleDown_pos (num : ℕ) (hden : 0 < den) (e : ℤ) : 0 < (scaleDown num den e).2 := by
  unfold scaleDown
  split
  · exact Nat.mul_pos hden (Nat.pow_pos (by norm_num))
  · exact hden

theorem scaleDown_div (num den : ℕ) (e : ℤ) :
    ((scaleDown num den e).1 : ℚ) / (scaleDown num den e).2 = (num : ℚ) / den / 2 ^ e := by
  unfold scaleDown
  split
  · next he => rw [Nat.cast_mul, cast_pow_toNat 2 he, Nat.cast_ofNat, div_div]
  · next he =>
    rw [Nat.cast_mul, cast_pow_toNat 2 (by omega), Nat.cast_ofNat, zpow_neg, div_right_comm,
      ← div_eq_mul_inv]

theorem rounds_scaleDown (num : ℕ) (hden : 0 < den) (e : ℤ) :
    Rounds ((num : ℚ) / den / 2 ^ e)
      (roundHalfEven (scaleDown num den e).1 (scaleDown num den e).2) := by
  rw [← scaleDown_div]
  exact rounds_roundHalfEven _ (scaleDown_pos num hden e)

theorem leadingExponent_spec (hnum : 0 < num) (hden : 0 < den) :
    (2 : ℚ) ^ leadingExponent num den ≤ (num : ℚ) / den ∧
      (num : ℚ) / den < 2 ^ (leadingExponent num den + 1) := by
  have hd : (0 : ℚ) < den := by exact_mod_cast hden
  have hnum₁ : (2 : ℚ) ^ (num.log2 : ℤ) ≤ num := by exact_mod_cast Nat.log2_self_le hnum.ne'
  have hnum₂ : (num : ℚ) < 2 ^ ((num.log2 : ℤ) + 1) := by exact_mod_cast Nat.lt_log2_self
  have hden₁ : (2 : ℚ) ^ (den.log2 : ℤ) ≤ den := by exact_mod_cast Nat.log2_self_le hden.ne'
  have hden₂ : (den : ℚ) < 2 ^ ((den.log2 : ℤ) + 1) := by exact_mod_cast Nat.lt_log2_self
  -- the leading digits alone tell the exponent up to one
  have hlow : (2 : ℚ) ^ ((num.log2 : ℤ) - den.log2 - 1) ≤ (num : ℚ) / den := by
    rw [le_div_iff₀ hd]
    calc (2 : ℚ) ^ ((num.log2 : ℤ) - den.log2 - 1) * den
        ≤ 2 ^ ((num.log2 : ℤ) - den.log2 - 1) * 2 ^ ((den.log2 : ℤ) + 1) := by gcongr
      _ = 2 ^ (num.log2 : ℤ) := by rw [← zpow_add₀ two_ne_zero]; congr 1; ring
      _ ≤ num := hnum₁
  have hhigh : (num : ℚ) / den < 2 ^ ((num.log2 : ℤ) - den.log2 + 1) := by
    rw [div_lt_iff₀ hd]
    calc (num : ℚ) < 2 ^ ((num.log2 : ℤ) + 1) := hnum₂
      _ = 2 ^ ((num.log2 : ℤ) - den.log2 + 1) * 2 ^ (den.log2 : ℤ) := by
          rw [← zpow_add₀ two_ne_zero]; congr 1; ring
      _ ≤ 2 ^ ((num.log2 : ℤ) - den.log2 + 1) * den := by gcongr
  -- and the comparison says which of the two it is
  have hpos := scaleDown_pos num hden ((num.log2 : ℤ) - den.log2)
  have hcompare : (scaleDown num den ((num.log2 : ℤ) - den.log2)).2 ≤
      (scaleDown num den ((num.log2 : ℤ) - den.log2)).1 ↔
        (2 : ℚ) ^ ((num.log2 : ℤ) - den.log2) ≤ (num : ℚ) / den := by
    rw [← one_le_div₀ (zpow_pos two_pos _), ← scaleDown_div,
      one_le_div₀ (by exact_mod_cast hpos), Nat.cast_le]
  simp only [leadingExponent]
  split
  · next h => exact ⟨hcompare.1 h, hhigh⟩
  · next h =>
    refine ⟨hlow, ?_⟩
    rw [sub_add_cancel]
    exact lt_of_not_ge fun hle => h (hcompare.2 hle)

/-- The exponent of the numbers next to a magnitude: their mantissas have 53 binary digits, and may
have fewer at the least exponent only. -/
structure Scale (v : ℚ) (e : ℤ) : Prop where
  least : -1074 ≤ e
  lead : -1074 < e → 2 ^ 52 * (2 : ℚ) ^ e ≤ v
  lt : v < 2 ^ 53 * (2 : ℚ) ^ e

theorem Scale.unique {v : ℚ} {e e' : ℤ} (h : Scale v e) (h' : Scale v e') : e = e' := by
  have hapart {a b : ℤ} (ha : Scale v a) (hb : Scale v b) : ¬ a < b := by
    intro hlt
    have hle : (2 : ℚ) ^ (a + 1) ≤ 2 ^ b := zpow_le_zpow_right₀ one_le_two hlt
    rw [zpow_add_one₀ two_ne_zero] at hle
    have := hb.lead (lt_of_le_of_lt ha.least hlt)
    linarith [ha.lt]
  exact le_antisymm (not_lt.1 (hapart h' h)) (not_lt.1 (hapart h h'))

theorem scale_max (hnum : 0 < num) (hden : 0 < den) :
    Scale ((num : ℚ) / den) (max (leadingExponent num den - 52) (-1074)) := by
  obtain ⟨hlow, hhigh⟩ := leadingExponent_spec hnum hden
  refine ⟨le_max_right _ _, fun hlt => ?_, ?_⟩
  · rw [max_eq_left (by omega)]
    calc (2 : ℚ) ^ 52 * 2 ^ (leadingExponent num den - 52)
        = 2 ^ leadingExponent num den := by
          rw [← zpow_natCast, ← zpow_add₀ two_ne_zero]; congr 1; push_cast; ring
      _ ≤ (num : ℚ) / den := hlow
  · calc (num : ℚ) / den < 2 ^ (leadingExponent num den + 1) := hhigh
      _ = 2 ^ 53 * (2 : ℚ) ^ (leadingExponent num den - 52) := by
          rw [← zpow_natCast (2 : ℚ) 53, ← zpow_add₀ two_ne_zero]; congr 1; push_cast; ring
      _ ≤ 2 ^ 53 * (2 : ℚ) ^ max (leadingExponent num den - 52) (-1074) := by
          gcongr
          · exact one_le_two
          · exact le_max_left _ _

theorem exists_scale_rounds (hnum : 0 < num) (hden : 0 < den) :
    ∃ e m, Scale ((num : ℚ) / den) e ∧ Rounds ((num : ℚ) / den / 2 ^ e) m :=
  ⟨_, _, scale_max hnum hden, rounds_scaleDown num hden _⟩

/-- A quotient is rounded to a mantissa at its scale, where `2 ^ 53` counts as `2 ^ 52` of the next
exponent. -/
theorem nearest_eq (negative : Bool) (hnum : 0 < num) (hden : 0 < den) {e : ℤ} {m : ℕ}
    (hscale : Scale ((num : ℚ) / den) e) (hround : Rounds ((num : ℚ) / den / 2 ^ e) m) :
    nearest negative num den =
      if m = 2 ^ 53 then if 971 < e + 1 then none else some ⟨negative, 2 ^ 52, e + 1⟩
      else if 971 < e then none else some ⟨negative, m, e⟩ := by
  obtain rfl := hscale.unique (scale_max hnum hden)
  obtain rfl := hround.unique (rounds_scaleDown num hden _)
  simp only [nearest, if_neg hnum.ne', Nat.pow_eq]
  split <;> rfl

end

/-! ## Numbers and their intervals -/

/-- The form of a number that is not zero: 53 binary digits unless the exponent is the least. -/
structure Normal (x : Binary64) : Prop where
  pos : 0 < x.mantissa
  lt : x.mantissa < 2 ^ 53
  least : -1074 ≤ x.exponent
  greatest : x.exponent ≤ 971
  lead : -1074 < x.exponent → 2 ^ 52 ≤ x.mantissa

/-- The magnitude of a number. -/
def value (x : Binary64) : ℚ := x.mantissa * 2 ^ x.exponent

/-- Whether a rational lies in an interval. -/
def Interval.Contains (i : Interval) (v : ℚ) : Prop :=
  if i.closed then (i.low : ℚ) / i.den ≤ v ∧ v ≤ (i.high : ℚ) / i.den
  else (i.low : ℚ) / i.den < v ∧ v < (i.high : ℚ) / i.den

/-- How far the interval of a number reaches down, in units of its last place. -/
def reach (x : Binary64) : ℚ := if x.mantissa = 2 ^ 52 ∧ -1074 < x.exponent then 1 / 4 else 1 / 2

section

variable {x : Binary64} {v : ℚ}

/-- The unit of the last place, over the denominator. -/
theorem unit_div (e : ℤ) :
    ((if 0 ≤ e then Nat.pow 2 e.toNat else 1 : ℕ) : ℚ) /
      (if 0 ≤ e then 1 else Nat.pow 2 (-e).toNat : ℕ) = 2 ^ e := by
  split
  · next he => rw [cast_pow_toNat 2 he, Nat.cast_ofNat, Nat.cast_one, div_one]
  · next he =>
    rw [Nat.cast_one, cast_pow_toNat 2 (by omega), Nat.cast_ofNat, zpow_neg, one_div, inv_inv]

theorem interval_mid_div (x : Binary64) :
    (x.interval.mid : ℚ) / x.interval.den = x.value := by
  rw [value, ← unit_div x.exponent]
  simp only [interval]
  push_cast
  ring

theorem interval_high_div (x : Binary64) :
    (x.interval.high : ℚ) / x.interval.den = (x.mantissa + 1 / 2) * 2 ^ x.exponent := by
  rw [← unit_div x.exponent]
  simp only [interval]
  push_cast
  ring

theorem interval_low_div (hx : x.Normal) :
    (x.interval.low : ℚ) / x.interval.den = (x.mantissa - x.reach) * 2 ^ x.exponent := by
  have hpos := hx.pos
  rw [← unit_div x.exponent]
  simp only [interval, reach, Nat.pow_eq]
  split
  · push_cast [Nat.cast_sub (show 1 ≤ 4 * x.mantissa by omega)]
    ring
  · push_cast [Nat.cast_sub (show 2 ≤ 4 * x.mantissa by omega)]
    ring

theorem contains_iff (hx : x.Normal) :
    x.interval.Contains v ↔
      if x.mantissa % 2 = 0 then
        x.mantissa - x.reach ≤ v / 2 ^ x.exponent ∧ v / 2 ^ x.exponent ≤ x.mantissa + 1 / 2
      else x.mantissa - x.reach < v / 2 ^ x.exponent ∧ v / 2 ^ x.exponent < x.mantissa + 1 / 2 := by
  have hunit : (0 : ℚ) < 2 ^ x.exponent := zpow_pos two_pos _
  rw [Interval.Contains, interval_low_div hx, interval_high_div, le_div_iff₀ hunit,
    div_le_iff₀ hunit, lt_div_iff₀ hunit, div_lt_iff₀ hunit]
  simp [interval]

theorem reach_le (x : Binary64) : x.reach ≤ 1 / 2 := by
  unfold reach
  split <;> norm_num

theorem reach_pos (x : Binary64) : 0 < x.reach := by
  unfold reach
  split <;> norm_num

theorem bounds_of_contains (hx : x.Normal) (h : x.interval.Contains v) :
    x.mantissa - x.reach ≤ v / 2 ^ x.exponent ∧ v / 2 ^ x.exponent ≤ x.mantissa + 1 / 2 := by
  rw [contains_iff hx] at h
  split at h
  · exact h
  · exact ⟨h.1.le, h.2.le⟩

theorem contains_of_lt (hx : x.Normal) (hlow : (x.mantissa - x.reach) * 2 ^ x.exponent < v)
    (hhigh : v < (x.mantissa + 1 / 2) * 2 ^ x.exponent) : x.interval.Contains v := by
  have hunit : (0 : ℚ) < 2 ^ x.exponent := zpow_pos two_pos _
  rw [← lt_div_iff₀ hunit] at hlow
  rw [← div_lt_iff₀ hunit] at hhigh
  rw [contains_iff hx]
  split
  · exact ⟨hlow.le, hhigh.le⟩
  · exact ⟨hlow, hhigh⟩

theorem zpow_bounds_of_contains (hx : x.Normal) (h : x.interval.Contains v) :
    2 ^ (x.exponent - 1) ≤ v ∧ v < 2 ^ (53 + x.exponent) := by
  have hunit : (0 : ℚ) < 2 ^ x.exponent := zpow_pos two_pos _
  obtain ⟨hlow, hhigh⟩ := bounds_of_contains hx h
  have hpos : (1 : ℚ) ≤ x.mantissa := by exact_mod_cast hx.pos
  have hlt : (x.mantissa : ℚ) + 1 ≤ 2 ^ 53 := by exact_mod_cast hx.lt
  constructor
  · rw [zpow_sub_one₀ two_ne_zero, mul_comm, ← le_div_iff₀ hunit]
    linarith [x.reach_le]
  · rw [zpow_add₀ two_ne_zero, ← div_lt_iff₀ hunit]
    norm_num at hlt ⊢
    linarith

theorem pos_of_contains (hx : x.Normal) (h : x.interval.Contains v) : 0 < v :=
  (zpow_pos two_pos _).trans_le (zpow_bounds_of_contains hx h).1

/-- At the scale of a number its interval is what rounds to its mantissa. -/
theorem contains_iff_rounds (hx : x.Normal) (hv : Scale v x.exponent) :
    x.interval.Contains v ↔ Rounds (v / 2 ^ x.exponent) x.mantissa := by
  have hunit : (0 : ℚ) < 2 ^ x.exponent := zpow_pos two_pos _
  rw [contains_iff hx]
  by_cases heven : x.mantissa % 2 = 0
  · rw [if_pos heven]
    constructor
    · rintro ⟨hlow, hhigh⟩
      refine ⟨?_, hhigh, fun _ => heven⟩
      linarith [x.reach_le]
    · intro h
      refine ⟨?_, h.below⟩
      unfold reach
      split
      · next hpower =>
        -- nothing of this scale lies below the power of two
        have hlead := hv.lead hpower.2
        rw [← le_div_iff₀ hunit] at hlead
        rw [hpower.1]
        push_cast
        linarith
      · exact h.above
  · have hreach : x.reach = 1 / 2 := by
      rw [reach, if_neg]
      rintro ⟨h, -⟩
      rw [h] at heven
      norm_num at heven
    rw [if_neg heven, hreach]
    constructor
    · rintro ⟨hlow, hhigh⟩
      refine ⟨hlow.le, hhigh.le, ?_⟩
      rintro (h | h)
      · exact absurd h hlow.ne'
      · exact absurd h hhigh.ne
    · intro h
      exact ⟨lt_of_le_of_ne h.above fun heq => heven (h.tie (.inl heq.symm)),
        lt_of_le_of_ne h.below fun heq => heven (h.tie (.inr heq))⟩

/-- Below the scale of a number its interval is a quarter of a unit, under a power of two only. -/
theorem contains_iff_of_lt (hx : x.Normal) (hleast : -1074 < x.exponent)
    (hv : v < 2 ^ 52 * 2 ^ x.exponent) :
    x.interval.Contains v ↔
      x.mantissa = 2 ^ 52 ∧ (2 ^ 52 - 1 / 4 : ℚ) ≤ v / 2 ^ x.exponent := by
  have hv' : v / 2 ^ x.exponent < 2 ^ 52 := by rwa [div_lt_iff₀ (zpow_pos two_pos _)]
  constructor
  · intro h
    have hlow := (bounds_of_contains hx h).1
    rw [reach] at hlow
    split at hlow
    · next hpower =>
      rw [hpower.1] at hlow
      exact ⟨hpower.1, by exact_mod_cast hlow⟩
    · next hpower =>
      -- half a unit under a larger mantissa is still of the number's scale
      have hlead := hx.lead hleast
      have hlarge : (2 : ℚ) ^ 52 + 1 ≤ x.mantissa := by
        have hne : x.mantissa ≠ 2 ^ 52 := fun h => hpower ⟨h, hleast⟩
        exact_mod_cast show 2 ^ 52 + 1 ≤ x.mantissa by omega
      linarith
  · rintro ⟨hpower, hlow⟩
    rw [contains_iff hx, if_pos (by rw [hpower]; norm_num), reach, if_pos ⟨hpower, hleast⟩, hpower]
    push_cast
    exact ⟨hlow, by linarith⟩

theorem scale_of_contains (hx : x.Normal) (h : x.interval.Contains v)
    (hlead : -1074 < x.exponent → 2 ^ 52 * (2 : ℚ) ^ x.exponent ≤ v) : Scale v x.exponent := by
  refine ⟨hx.least, hlead, ?_⟩
  have hlt : (x.mantissa : ℚ) + 1 ≤ 2 ^ 53 := by exact_mod_cast hx.lt
  rw [← div_lt_iff₀ (zpow_pos two_pos _)]
  linarith [(bounds_of_contains hx h).2]

/-- What lies under a power of two, in its interval, rounds up to it in half its unit. -/
theorem rounds_of_contains_of_lt (hx : x.Normal) (hleast : -1074 < x.exponent)
    (hv : v < 2 ^ 52 * 2 ^ x.exponent) (h : x.interval.Contains v) :
    x.mantissa = 2 ^ 52 ∧ Scale v (x.exponent - 1) ∧
      Rounds (v / 2 ^ (x.exponent - 1)) (2 ^ 53) := by
  obtain ⟨hpower, hlow⟩ := (contains_iff_of_lt hx hleast hv).1 h
  have hhalf : (0 : ℚ) < 2 ^ (x.exponent - 1) := zpow_pos two_pos _
  have hunit : (2 : ℚ) ^ x.exponent = 2 ^ (x.exponent - 1) * 2 := by
    rw [← zpow_add_one₀ two_ne_zero, sub_add_cancel]
  rw [hunit, le_div_iff₀ (by positivity)] at hlow
  rw [hunit] at hv
  refine ⟨hpower, ⟨by omega, fun _ => by linarith, by linarith⟩, ?_, ?_, fun _ => by norm_num⟩
  · rw [le_div_iff₀ hhalf]
    push_cast
    linarith
  · rw [div_le_iff₀ hhalf]
    push_cast
    linarith

end

/-! ## What rounds to a number -/

section

variable {negative : Bool} {num den : ℕ} {x : Binary64}

theorem Scale.div_lt {v : ℚ} {e : ℤ} (h : Scale v e) : v / 2 ^ e < 2 ^ 53 := by
  rw [div_lt_iff₀ (zpow_pos two_pos _)]
  exact h.lt

theorem Scale.le_div {v : ℚ} {e : ℤ} (h : Scale v e) (he : -1074 < e) : 2 ^ 52 ≤ v / 2 ^ e := by
  rw [le_div_iff₀ (zpow_pos two_pos _)]
  exact h.lead he

theorem Rounds.le_of_le {q : ℚ} {m k : ℕ} (h : Rounds q m) (hk : (k : ℚ) ≤ q) : k ≤ m := by
  have hlt : (k : ℚ) < m + 1 := by linarith [h.below]
  exact Nat.lt_succ_iff.1 (by exact_mod_cast hlt)

theorem Rounds.le_of_ge {q : ℚ} {m k : ℕ} (h : Rounds q m) (hk : q ≤ k) : m ≤ k := by
  have hlt : (m : ℚ) < k + 1 := by linarith [h.above]
  exact Nat.lt_succ_iff.1 (by exact_mod_cast hlt)

theorem div_zpow_succ (v : ℚ) (e : ℤ) : v / 2 ^ (e + 1) = v / 2 ^ e / 2 := by
  rw [zpow_add_one₀ two_ne_zero, div_div]

theorem contains_of_nearest (hden : 0 < den) (hx : x.Normal)
    (h : nearest negative num den = some x) :
    x.negative = negative ∧ x.interval.Contains ((num : ℚ) / den) := by
  have hnum : 0 < num := by
    rcases Nat.eq_zero_or_pos num with rfl | hnum
    · cases h
      exact absurd hx.pos (Nat.lt_irrefl 0)
    · exact hnum
  obtain ⟨e, m, hscale, hround⟩ := exists_scale_rounds hnum hden
  rw [nearest_eq negative hnum hden hscale hround] at h
  split at h
  · next hcarry =>
    -- the unit is half the number's
    split at h
    · cases h
    · cases h
      have hleast : -1074 < e + 1 := Int.lt_add_one_of_le hscale.least
      have habove := hround.above
      rw [hcarry] at habove
      push_cast at habove
      refine ⟨rfl, (contains_iff_of_lt hx hleast ?_).2 ⟨rfl, ?_⟩⟩
      · rw [zpow_add_one₀ two_ne_zero]
        linarith [hscale.lt]
      · rw [div_zpow_succ]
        linarith
  · split at h
    · cases h
    · cases h
      exact ⟨rfl, (contains_iff_rounds hx hscale).2 hround⟩

theorem nearest_of_contains (hden : 0 < den) (hx : x.Normal)
    (h : x.interval.Contains ((num : ℚ) / den)) : nearest x.negative num den = some x := by
  have hnum : 0 < num := by
    have hv := pos_of_contains hx h
    rw [div_pos_iff_of_pos_right (by exact_mod_cast hden)] at hv
    exact_mod_cast hv
  by_cases hbelow : -1074 < x.exponent ∧ (num : ℚ) / den < 2 ^ 52 * 2 ^ x.exponent
  · -- rounding up to the power of two, in half its unit
    obtain ⟨hpower, hscale, hround⟩ := rounds_of_contains_of_lt hx hbelow.1 hbelow.2 h
    rw [nearest_eq _ hnum hden hscale hround, if_pos rfl, sub_add_cancel,
      if_neg (not_lt.2 hx.greatest), ← hpower]
  · have hscale := scale_of_contains hx h fun hlead => not_lt.1 fun hv => hbelow ⟨hlead, hv⟩
    have hround := (contains_iff_rounds hx hscale).1 h
    rw [nearest_eq _ hnum hden hscale hround, if_neg hx.lt.ne, if_neg (not_lt.2 hx.greatest)]

/-- A quotient rounds to a number exactly when it lies in the number's interval. -/
theorem nearest_eq_some_iff (hden : 0 < den) (hx : x.Normal) :
    nearest negative num den = some x ↔
      x.negative = negative ∧ x.interval.Contains ((num : ℚ) / den) := by
  constructor
  · exact contains_of_nearest hden hx
  · rintro ⟨rfl, h⟩
    exact nearest_of_contains hden hx h

example : nearest false 1 10 = some ⟨false, 0x1999999999999A, -56⟩ := by decide +kernel

/-- A quotient has no number exactly when it is as near to `2 ^ 1024` as to the greatest one, or
nearer. -/
theorem nearest_eq_none_iff (hden : 0 < den) :
    nearest negative num den = none ↔ (2 ^ 53 - 1 / 2) * (2 : ℚ) ^ (971 : ℤ) ≤ (num : ℚ) / den := by
  have hpos : (0 : ℚ) < 2 ^ (971 : ℤ) := zpow_pos two_pos _
  rcases Nat.eq_zero_or_pos num with rfl | hnum
  · rw [Nat.cast_zero, zero_div]
    refine ⟨nofun, fun h => absurd h (not_le.2 (mul_pos (by norm_num) hpos))⟩
  obtain ⟨e, m, hscale, hround⟩ := exists_scale_rounds hnum hden
  rw [nearest_eq negative hnum hden hscale hround]
  rcases lt_trichotomy e 971 with hlt | rfl | hgt
  · -- too small, even when rounding carries
    have hunit : (2 : ℚ) ^ (e + 1) ≤ 2 ^ (971 : ℤ) := zpow_le_zpow_right₀ one_le_two hlt
    rw [zpow_add_one₀ two_ne_zero] at hunit
    have hsmall := hscale.lt
    generalize (2 : ℚ) ^ (971 : ℤ) = unit at *
    rw [if_neg (show ¬ 971 < e + 1 by omega), if_neg (show ¬ 971 < e by omega)]
    refine ⟨fun h => ?_, fun h => ?_⟩
    · split at h <;> cases h
    · linarith
  · -- the greatest exponent: only a carry overflows
    rw [if_pos (show (971 : ℤ) < 971 + 1 by norm_num), if_neg (lt_irrefl _), ← le_div_iff₀ hpos]
    have hlt := hscale.div_lt
    generalize (num : ℚ) / den / 2 ^ (971 : ℤ) = q at *
    constructor
    · intro h
      split at h
      · next hcarry =>
        have habove := hround.above
        rw [hcarry] at habove
        exact_mod_cast habove
      · cases h
    · intro h
      rw [if_pos]
      exact hround.unique ⟨by exact_mod_cast h, by push_cast; linarith, fun _ => by norm_num⟩
  · have hunit : (2 : ℚ) ^ (971 + 1 : ℤ) ≤ 2 ^ e := zpow_le_zpow_right₀ one_le_two hgt
    rw [zpow_add_one₀ two_ne_zero] at hunit
    have hlead := hscale.lead (by omega)
    rw [if_pos hgt, if_pos (show 971 < e + 1 by omega), ite_self]
    generalize (2 : ℚ) ^ (971 : ℤ) = unit at *
    exact ⟨fun _ => by linarith, fun _ => rfl⟩

example : nearest false (2 ^ 1024) 1 = none := by decide +kernel

end

/-! ## Numbers that are built -/

/-- Zero has one form for each sign, and every other number one. -/
def WellFormed (x : Binary64) : Prop := x.Normal ∨ x = zero x.negative

section

variable {x y z : Binary64} {negative : Bool} {num den : ℕ}

theorem wellFormed_zero (negative : Bool) : (zero negative).WellFormed := .inr rfl

theorem WellFormed.withSign (hx : x.WellFormed) (negative : Bool) :
    (x.withSign negative).WellFormed := by
  rcases hx with ⟨hpos, hlt, hleast, hgreatest, hlead⟩ | hzero
  · exact .inl ⟨hpos, hlt, hleast, hgreatest, hlead⟩
  · rw [hzero]
    exact wellFormed_zero negative

theorem wellFormed_of_nearest (hden : 0 < den) (h : nearest negative num den = some x) :
    x.WellFormed := by
  rcases Nat.eq_zero_or_pos num with rfl | hnum
  · cases h
    exact wellFormed_zero negative
  obtain ⟨e, m, hscale, hround⟩ := exists_scale_rounds hnum hden
  have hle : m ≤ 2 ^ 53 := hround.le_of_ge (by exact_mod_cast hscale.div_lt.le)
  have hlead (he : -1074 < e) : 2 ^ 52 ≤ m :=
    hround.le_of_le (by exact_mod_cast hscale.le_div he)
  have hleast := hscale.least
  rw [nearest_eq negative hnum hden hscale hround] at h
  split at h
  · split at h
    · cases h
    · next hgreatest =>
      cases h
      exact .inl ⟨by norm_num, by norm_num, by dsimp only; omega, not_lt.1 hgreatest,
        fun _ => le_rfl⟩
  · next hcarry =>
    split at h
    · cases h
    · next hgreatest =>
      cases h
      rcases Nat.eq_zero_or_pos m with rfl | hpos
      · -- a mantissa of zero is below every leading digit
        obtain rfl : e = -1074 := by
          by_contra hne
          exact absurd (hlead (by omega)) (by norm_num)
        exact wellFormed_zero negative
      · exact .inl ⟨hpos, lt_of_le_of_ne hle hcarry, hleast, not_lt.1 hgreatest, hlead⟩

theorem magnitude_den_pos (x : Binary64) : 0 < x.magnitude.2 := by
  unfold magnitude
  split
  · exact one_pos
  · exact Nat.pow_pos (by norm_num)

theorem wellFormed_of_mul? (h : x.mul? y = some z) : z.WellFormed :=
  wellFormed_of_nearest (Nat.mul_pos x.magnitude_den_pos y.magnitude_den_pos) h

theorem wellFormed_of_div? (h : x.div? y = some z) : z.WellFormed := by
  simp only [div?] at h
  split at h
  · cases h
  · next hdivisor =>
    exact wellFormed_of_nearest
      (Nat.mul_pos x.magnitude_den_pos (Nat.pos_of_ne_zero hdivisor)) h

theorem WellFormed.shrink (hx : x.WellFormed) {steps : ℕ} (h : x.shrink steps = some y) :
    y.WellFormed := by
  induction steps generalizing x with
  | zero =>
      cases h
      exact hx
  | succ steps ih =>
      rw [Binary64.shrink] at h
      split at h
      · cases h
        exact hx
      · obtain ⟨z, hz, h⟩ := Option.bind_eq_some_iff.1 h
        obtain ⟨power, -, hz⟩ := Option.bind_eq_some_iff.1 hz
        exact ih (wellFormed_of_div? hz) h

theorem WellFormed.scaleByTen (hx : x.WellFormed) {exponent : ℤ}
    (h : x.scaleByTen exponent = some y) : y.WellFormed := by
  rw [Binary64.scaleByTen] at h
  split at h
  · cases h
    exact hx
  · split at h
    · split at h
      · obtain ⟨power, -, h⟩ := Option.bind_eq_some_iff.1 h
        exact wellFormed_of_mul? h
      · cases h
    · obtain ⟨z, -, h⟩ := Option.bind_eq_some_iff.1 h
      obtain ⟨power, -, h⟩ := Option.bind_eq_some_iff.1 h
      exact wellFormed_of_div? h

/-- Both readings of a literal build numbers in their form. -/
theorem wellFormed_of_ofDecimal {digits : ℕ} {exponent : ℤ}
    (h : ofDecimal negative digits exponent = some x) : x.WellFormed := by
  simp only [ofDecimal] at h
  split at h
  · cases h
    exact wellFormed_zero negative
  · split at h
    · cases h
    · split at h
      · exact wellFormed_of_nearest one_pos h
      · exact wellFormed_of_nearest (Nat.pow_pos (by norm_num)) h

theorem wellFormed_of_ofScaled {digits : ℕ} {exponent : ℤ}
    (h : ofScaled negative digits exponent = some x) : x.WellFormed := by
  obtain ⟨y, hy, h⟩ := Option.bind_eq_some_iff.1 h
  obtain ⟨z, hz, rfl⟩ := Option.map_eq_some_iff.1 h
  exact ((wellFormed_of_nearest one_pos hy).scaleByTen hz).withSign negative

end

end EndpointBindings.Decimal.Binary64
