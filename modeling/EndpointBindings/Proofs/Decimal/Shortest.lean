import EndpointBindings.Proofs.Decimal.Rounding
import Mathlib.Data.Nat.Cast.Order.Field

/-!
# The fewest digits read back

The digits that are written for a number are read as the number, no decimal with fewer digits is,
and of those with as many none is nearer (`isShortest_shortest`).  Being read as a number is said
with `ofDecimal` alone; that this is lying in the rounding interval is `ofDecimal_eq_some_iff`.

| | |
| :-- | :-- |
| `Interval.Around i v` | an interval and the number that it belongs to |
| `Units i e scale step` | the grid `10 ^ e` in the units in which the search compares |
| `IsGridPoint i v e d` | `d` is the point of the grid `10 ^ e` in the interval that is nearest to `v` |
| `IsHit x n d` | the search for `x` ends with `n` digits, at the point `d` |
| `Reads x c` | the decimal `c` is read as `x` |
| `IsShortest x d` | `d` is read as `x`, with the fewest digits, and is the nearest of those |

Two points of a grid are enough to look at, because an interval has no holes
(`contains_neighbour`).  Seventeen digits are enough, because the seventeenth digit of a number is
worth less than the interval is wide (`exists_contains`).  A decimal with few digits need not lie on
the grid of so many digits, since it may have a smaller first digit; but then a power of ten lies
between it and the number, and that is a point of the grid (`exists_grid_point`).
-/

namespace EndpointBindings.Decimal

/-- The value of a decimal magnitude. -/
def Digits.value (d : Digits) : ℚ := d.digits * 10 ^ d.exponent

namespace Binary64

/-! ## Intervals and grids -/

section

variable {i : Interval} {u v w : ℚ}

theorem Interval.Contains.between (hu : i.Contains u) (hw : i.Contains w) (huv : u ≤ v)
    (hvw : v ≤ w) : i.Contains v := by
  unfold Interval.Contains at *
  split
  · next hclosed =>
    rw [if_pos hclosed] at hu hw
    exact ⟨hu.1.trans huv, hvw.trans hw.2⟩
  · next hclosed =>
    rw [if_neg hclosed] at hu hw
    exact ⟨hu.1.trans_le huv, hvw.trans_lt hw.2⟩

theorem Interval.holds_iff (hden : 0 < i.den) {num scale : ℕ} (hscale : 0 < scale) :
    i.holds num scale = true ↔ i.Contains ((num : ℚ) / (i.den * scale)) := by
  have hd : (0 : ℚ) < i.den * scale := by positivity
  have hcast (end' : ℕ) : (end' : ℚ) / i.den = (end' * scale : ℕ) / (i.den * scale) := by
    rw [Nat.cast_mul, mul_div_mul_right _ _ (by positivity)]
  rw [Interval.holds, Interval.Contains, hcast, hcast, div_le_div_iff_of_pos_right hd,
    div_le_div_iff_of_pos_right hd, div_lt_div_iff_of_pos_right hd, div_lt_div_iff_of_pos_right hd]
  norm_cast
  split <;> simp

/-- An interval around its number. -/
structure Interval.Around (i : Interval) (v : ℚ) : Prop where
  den_pos : 0 < i.den
  mid : (i.mid : ℚ) / i.den = v
  contains : i.Contains v

/-- A grid in the units in which the search compares, of which `den · scale` make one. -/
structure Units (i : Interval) (e : ℤ) (scale step : ℕ) : Prop where
  scale_pos : 0 < scale
  step_pos : 0 < step
  width : (step : ℚ) / (i.den * scale) = 10 ^ e

namespace Units

variable {e : ℤ} {scale step : ℕ}

theorem point_eq (hu : Units i e scale step) (k : ℕ) :
    (k : ℚ) * 10 ^ e = (k * step : ℕ) / (i.den * scale) := by
  rw [← hu.width, Nat.cast_mul, mul_div_assoc]

theorem mid_eq (hu : Units i e scale step) (h : i.Around v) :
    v = (i.mid * scale : ℕ) / (i.den * scale) := by
  have hscale := hu.scale_pos
  rw [← h.mid, Nat.cast_mul, mul_div_mul_right _ _ (by positivity)]

theorem contains_iff (hu : Units i e scale step) (h : i.Around v) (k : ℕ) :
    i.Contains (k * 10 ^ e) ↔ i.holds (k * step) scale = true := by
  rw [hu.point_eq, Interval.holds_iff h.den_pos hu.scale_pos]

end Units

theorem exists_gridPoint?_eq (hden : 0 < i.den) (e : ℤ) :
    ∃ scale step : ℕ, Units i e scale step ∧
      gridPoint? i e =
        let mid := i.mid * scale
        let down := mid / step
        match i.holds (down * step) scale, i.holds ((down + 1) * step) scale with
        | false, false => none
        | true, false => some down
        | false, true => some (down + 1)
        | true, true =>
          if mid - down * step < (down + 1) * step - mid then some down
          else if (down + 1) * step - mid < mid - down * step then some (down + 1)
          else if down % 2 = 0 then some down else some (down + 1) := by
  have hd : (i.den : ℚ) ≠ 0 := by positivity
  refine ⟨if 0 ≤ e then 1 else Nat.pow 10 (-e).toNat,
    if 0 ≤ e then i.den * Nat.pow 10 e.toNat else i.den, ⟨?_, ?_, ?_⟩, rfl⟩
  · split
    · exact one_pos
    · exact Nat.pow_pos (by norm_num)
  · split
    · exact Nat.mul_pos hden (Nat.pow_pos (by norm_num))
    · exact hden
  · split
    · next he =>
      rw [Nat.cast_mul, cast_pow_toNat 10 he, Nat.cast_ofNat, Nat.cast_one, mul_one,
        mul_div_cancel_left₀ _ hd]
    · next he =>
      rw [cast_pow_toNat 10 (by omega), Nat.cast_ofNat, zpow_neg, div_mul_cancel_left₀ hd, inv_inv]

/-- The two points of a grid next to a number, and which of them is taken. -/
theorem gridPoint?_cases (h : i.Around v) (e : ℤ) :
    ∃ down : ℕ, (down : ℚ) * 10 ^ e ≤ v ∧ v < (down + 1 : ℕ) * 10 ^ e ∧
      (gridPoint? i e = none ∧ ¬ i.Contains (down * 10 ^ e) ∧
          ¬ i.Contains ((down + 1 : ℕ) * 10 ^ e) ∨
        gridPoint? i e = some down ∧ i.Contains (down * 10 ^ e) ∧
          (i.Contains ((down + 1 : ℕ) * 10 ^ e) →
            v - down * 10 ^ e ≤ (down + 1 : ℕ) * 10 ^ e - v) ∨
        gridPoint? i e = some (down + 1) ∧ i.Contains ((down + 1 : ℕ) * 10 ^ e) ∧
          (i.Contains (down * 10 ^ e) →
            (down + 1 : ℕ) * 10 ^ e - v ≤ v - down * 10 ^ e)) := by
  obtain ⟨scale, step, hu, heq⟩ := exists_gridPoint?_eq h.den_pos e
  have hone : (0 : ℚ) < i.den * scale := by
    have hden := h.den_pos
    have hscale := hu.scale_pos
    positivity
  have hdown : i.mid * scale / step * step ≤ i.mid * scale := Nat.div_mul_le_self _ _
  have hup : i.mid * scale < (i.mid * scale / step + 1) * step :=
    Nat.lt_of_lt_of_eq (Nat.lt_mul_div_succ _ hu.step_pos) (Nat.mul_comm _ _)
  rw [heq]
  dsimp only
  generalize i.mid * scale / step = down at *
  have hbelow : v - down * 10 ^ e = (i.mid * scale - down * step : ℕ) / (i.den * scale) := by
    rw [hu.point_eq, hu.mid_eq h, ← sub_div, Nat.cast_sub hdown]
  have habove : (down + 1 : ℕ) * 10 ^ e - v =
      ((down + 1) * step - i.mid * scale : ℕ) / (i.den * scale) := by
    rw [hu.point_eq, hu.mid_eq h, ← sub_div, Nat.cast_sub hup.le]
  refine ⟨down, ?_, ?_, ?_⟩
  · rw [hu.point_eq, hu.mid_eq h, div_le_div_iff_of_pos_right hone]
    exact_mod_cast hdown
  · rw [hu.point_eq, hu.mid_eq h, div_lt_div_iff_of_pos_right hone]
    exact_mod_cast hup
  · rw [hbelow, habove, div_le_div_iff_of_pos_right hone, div_le_div_iff_of_pos_right hone,
      Nat.cast_le, Nat.cast_le, hu.contains_iff h, hu.contains_iff h]
    split
    · next hdown hup => exact .inl ⟨rfl, by simp [hdown], by simp [hup]⟩
    · next hdown hup => exact .inr (.inl ⟨rfl, hdown, by simp [hup]⟩)
    · next hdown hup => exact .inr (.inr ⟨rfl, hup, by simp [hdown]⟩)
    · next hdown hup =>
      split
      · next hlt => exact .inr (.inl ⟨rfl, hdown, fun _ => hlt.le⟩)
      · next hge =>
        split
        · next hlt => exact .inr (.inr ⟨rfl, hup, fun _ => hlt.le⟩)
        · next hle =>
          -- equally near: the even point
          split
          · exact .inr (.inl ⟨rfl, hdown, fun _ => not_lt.1 hle⟩)
          · exact .inr (.inr ⟨rfl, hup, fun _ => not_lt.1 hge⟩)

/-- Of the points next to a number one lies in its interval, and at least as near, when any point of
the grid does. -/
theorem contains_neighbour (h : i.Contains v) {e : ℤ} {down k : ℕ} (hdown : down * 10 ^ e ≤ v)
    (hup : v ≤ (down + 1 : ℕ) * 10 ^ e) (hk : i.Contains (k * 10 ^ e)) :
    i.Contains (down * 10 ^ e) ∧ v - down * 10 ^ e ≤ |v - k * 10 ^ e| ∨
      i.Contains ((down + 1 : ℕ) * 10 ^ e) ∧ (down + 1 : ℕ) * 10 ^ e - v ≤ |v - k * 10 ^ e| := by
  have hmono {a b : ℕ} (hab : a ≤ b) : (a : ℚ) * 10 ^ e ≤ b * 10 ^ e := by gcongr
  rcases Nat.lt_or_ge down k with hlt | hge
  · have hle := hmono hlt
    refine .inr ⟨h.between hk hup hle, ?_⟩
    rw [abs_sub_comm, abs_of_nonneg (by linarith)]
    linarith
  · have hle := hmono hge
    refine .inl ⟨hk.between h hle hdown, ?_⟩
    rw [abs_of_nonneg (by linarith)]
    linarith

/-- A hit lies in the interval, at most one step beyond the number, and no point of the grid in the
interval is nearer. -/
structure IsGridPoint (i : Interval) (v : ℚ) (e : ℤ) (d : ℕ) : Prop where
  contains : i.Contains (d * 10 ^ e)
  le : (d : ℚ) * 10 ^ e ≤ v + 10 ^ e
  nearest : ∀ k : ℕ, i.Contains (k * 10 ^ e) → |v - d * 10 ^ e| ≤ |v - k * 10 ^ e|

theorem isGridPoint_of_gridPoint? (h : i.Around v) {e : ℤ} {d : ℕ} (hd : gridPoint? i e = some d) :
    IsGridPoint i v e d := by
  have hunit : (0 : ℚ) < 10 ^ e := zpow_pos (by norm_num) _
  obtain ⟨down, hdown, hup, hcases⟩ := gridPoint?_cases h e
  rcases hcases with ⟨heq, -, -⟩ | ⟨heq, hcontains, hother⟩ | ⟨heq, hcontains, hother⟩ <;>
    rw [heq] at hd <;> cases hd
  · refine ⟨hcontains, by linarith, fun k hk => ?_⟩
    rw [abs_of_nonneg (by linarith)]
    rcases contains_neighbour h.contains hdown hup.le hk with ⟨-, hnear⟩ | ⟨hcontains', hnear⟩
    · exact hnear
    · exact (hother hcontains').trans hnear
  · refine ⟨hcontains, by push_cast; linarith, fun k hk => ?_⟩
    rw [abs_sub_comm, abs_of_nonneg (by linarith)]
    rcases contains_neighbour h.contains hdown hup.le hk with ⟨hcontains', hnear⟩ | ⟨-, hnear⟩
    · exact (hother hcontains').trans hnear
    · exact hnear

/-- A miss says that no point of the grid lies in the interval. -/
theorem gridPoint?_eq_none_iff (h : i.Around v) (e : ℤ) :
    gridPoint? i e = none ↔ ∀ k : ℕ, ¬ i.Contains (k * 10 ^ e) := by
  obtain ⟨down, hdown, hup, hcases⟩ := gridPoint?_cases h e
  constructor
  · intro hnone k hk
    rcases hcases with ⟨-, hdown', hup'⟩ | ⟨heq, -⟩ | ⟨heq, -⟩
    · rcases contains_neighbour h.contains hdown hup.le hk with ⟨hcontains, -⟩ | ⟨hcontains, -⟩
      · exact hdown' hcontains
      · exact hup' hcontains
    · rw [heq] at hnone; cases hnone
    · rw [heq] at hnone; cases hnone
  · intro hmiss
    rcases hcases with ⟨heq, -⟩ | ⟨-, hcontains, -⟩ | ⟨-, hcontains, -⟩
    · exact heq
    · exact absurd hcontains (hmiss down)
    · exact absurd hcontains (hmiss (down + 1))

end

/-! ## Seventeen digits suffice -/

/-- Powers of two and ten are compared through smaller ones. -/
theorem two_zpow_le_ten_zpow {a b k : ℕ} (h : 2 ^ a ≤ 10 ^ b) {m n : ℤ} (hm : m ≤ a * k)
    (hn : (b : ℤ) * k ≤ n) : (2 : ℚ) ^ m ≤ 10 ^ n := by
  have h' : (2 : ℚ) ^ a ≤ 10 ^ b := by exact_mod_cast h
  calc (2 : ℚ) ^ m ≤ 2 ^ ((a : ℤ) * k) := zpow_le_zpow_right₀ one_le_two hm
    _ = (2 ^ a) ^ k := by rw [zpow_mul, zpow_natCast, zpow_natCast]
    _ ≤ (10 ^ b) ^ k := pow_le_pow_left₀ (by positivity) h' k
    _ = 10 ^ ((b : ℤ) * k) := by rw [zpow_mul, zpow_natCast, zpow_natCast]
    _ ≤ 10 ^ n := zpow_le_zpow_right₀ (by norm_num) hn

theorem pow_length_toDigits {a : ℕ} (ha : 0 < a) :
    10 ^ ((Nat.toDigits 10 a).length - 1) ≤ a ∧ a < 10 ^ (Nat.toDigits 10 a).length := by
  refine ⟨?_, (Nat.length_toDigits_le_iff (by norm_num) Nat.length_toDigits_pos).1 le_rfl⟩
  by_contra hlt
  rcases Nat.eq_zero_or_pos ((Nat.toDigits 10 a).length - 1) with hzero | hpos
  · rw [hzero, pow_zero] at hlt
    omega
  · have := (Nat.length_toDigits_le_iff (by norm_num) hpos).2 (not_le.1 hlt)
    omega

theorem decimalExponent_spec {num den : ℕ} (hden : 0 < den)
    (hsize : (10 : ℚ) ^ (-(decimalShift : ℤ)) ≤ (num : ℚ) / den) :
    (10 : ℚ) ^ decimalExponent num den ≤ (num : ℚ) / den ∧
      (num : ℚ) / den < 10 ^ (decimalExponent num den + 1) := by
  unfold decimalExponent
  generalize decimalShift = k at *
  have hd : (0 : ℚ) < den := by exact_mod_cast hden
  have hten : (0 : ℚ) < 10 ^ (k : ℤ) := zpow_pos (by norm_num) _
  -- the quotient scaled up, and the natural number below it
  have hscaled : ((num * Nat.pow 10 k : ℕ) : ℚ) / den = num / den * 10 ^ (k : ℤ) := by
    rw [Nat.pow_eq, Nat.cast_mul, Nat.cast_pow, Nat.cast_ofNat, ← zpow_natCast, mul_div_right_comm]
  have hfloor : ((num * Nat.pow 10 k / den : ℕ) : ℚ) ≤ num / den * 10 ^ (k : ℤ) := by
    rw [← hscaled]
    exact Nat.cast_div_le
  have hceil : (num : ℚ) / den * 10 ^ (k : ℤ) < (num * Nat.pow 10 k / den : ℕ) + 1 := by
    rw [← hscaled, div_lt_iff₀ hd]
    exact_mod_cast Nat.lt_of_lt_of_eq (Nat.lt_mul_div_succ _ hden) (Nat.mul_comm _ _)
  generalize num * Nat.pow 10 k / den = a at *
  have hpos : 0 < a := by
    rw [zpow_neg, inv_le_iff_one_le_mul₀ hten] at hsize
    have : (0 : ℚ) < a := by linarith
    exact_mod_cast this
  obtain ⟨hlow, hhigh⟩ := pow_length_toDigits hpos
  have hlength : 0 < (Nat.toDigits 10 a).length := Nat.length_toDigits_pos
  generalize (Nat.toDigits 10 a).length = length at *
  constructor
  · rw [← mul_le_mul_iff_left₀ hten, ← zpow_add₀ (by norm_num)]
    calc (10 : ℚ) ^ ((length : ℤ) - (k + 1) + k) = (10 ^ (length - 1) : ℕ) := by
          rw [Nat.cast_pow, Nat.cast_ofNat, ← zpow_natCast]
          congr 1
          omega
      _ ≤ a := by exact_mod_cast hlow
      _ ≤ num / den * 10 ^ (k : ℤ) := hfloor
  · rw [← mul_lt_mul_iff_left₀ hten, ← zpow_add₀ (by norm_num)]
    calc (num : ℚ) / den * 10 ^ (k : ℤ) < a + 1 := hceil
      _ ≤ (10 ^ length : ℕ) := by exact_mod_cast hhigh
      _ = 10 ^ ((length : ℤ) - (k + 1) + 1 + k) := by
          rw [Nat.cast_pow, Nat.cast_ofNat, ← zpow_natCast]
          congr 1
          omega

section

variable {x : Binary64}

theorem contains_value (hx : x.Normal) : x.interval.Contains x.value := by
  have hunit : (0 : ℚ) < 2 ^ x.exponent := zpow_pos two_pos _
  refine contains_of_lt hx ?_ ?_ <;> rw [value] <;> nlinarith [x.reach_pos]

theorem around_value (hx : x.Normal) : x.interval.Around x.value where
  den_pos := by
    simp only [interval]
    split
    · norm_num
    · exact Nat.mul_pos (by norm_num) (Nat.pow_pos (by norm_num))
  mid := interval_mid_div x
  contains := contains_value hx

/-- The exponent of the leading decimal digit of a number. -/
def lead (x : Binary64) : ℤ := decimalExponent x.interval.mid x.interval.den

theorem lead_spec (hx : x.Normal) : (10 : ℚ) ^ x.lead ≤ x.value ∧ x.value < 10 ^ (x.lead + 1) := by
  have hpow : (2 : ℚ) ^ (1074 : ℤ) ≤ 10 ^ (decimalShift : ℤ) :=
    two_zpow_le_ten_zpow (show 2 ^ 3 ≤ 10 ^ 1 by norm_num) (show 1074 ≤ 3 * 400 by norm_num)
      (by norm_num [decimalShift])
  have hsize : (10 : ℚ) ^ (-(decimalShift : ℤ)) ≤ x.value := by
    have hpos : (1 : ℚ) ≤ x.mantissa := by exact_mod_cast hx.pos
    calc (10 : ℚ) ^ (-(decimalShift : ℤ)) ≤ 2 ^ (-1074 : ℤ) := by
          rw [zpow_neg, zpow_neg]
          exact inv_anti₀ (zpow_pos two_pos _) hpow
      _ ≤ 2 ^ x.exponent := zpow_le_zpow_right₀ one_le_two hx.least
      _ ≤ x.mantissa * 2 ^ x.exponent := le_mul_of_one_le_left (zpow_nonneg two_pos.le _) hpos
  rw [← interval_mid_div] at hsize ⊢
  exact decimalExponent_spec (around_value hx).den_pos hsize

/-- The grid of the seventeenth digit has a point in the interval. -/
theorem exists_contains (hx : x.Normal) :
    ∃ k : ℕ, x.interval.Contains (k * 10 ^ (x.lead - 17 + 1)) := by
  rw [show x.lead - 17 + 1 = x.lead - 16 by ring]
  obtain ⟨down, hdown, hup, -⟩ := gridPoint?_cases (around_value hx) (x.lead - 16)
  have hunit : (0 : ℚ) < 2 ^ x.exponent := zpow_pos two_pos _
  -- a step of the grid is the seventeenth digit of the number
  have hstep : (10 : ℚ) ^ 16 * 10 ^ (x.lead - 16) ≤ x.mantissa * 2 ^ x.exponent := by
    rw [← zpow_natCast, ← zpow_add₀ (by norm_num), show ((16 : ℕ) : ℤ) + (x.lead - 16) = x.lead by
      push_cast; ring]
    exact (lead_spec hx).1
  have hlt : (x.mantissa : ℚ) + 1 ≤ 2 ^ 53 := by exact_mod_cast hx.lt
  rw [value] at hdown hup
  push_cast at hup
  generalize (10 : ℚ) ^ (x.lead - 16) = step at *
  by_cases habove : ((down + 1 : ℕ) : ℚ) * step < (x.mantissa + 1 / 2) * 2 ^ x.exponent
  · exact ⟨down + 1, contains_of_lt hx (by push_cast; nlinarith [x.reach_pos]) habove⟩
  · -- the point above is half a unit away, so the one below is nearer
    refine ⟨down, contains_of_lt hx ?_ (by nlinarith)⟩
    push_cast at habove
    rw [reach]
    split
    · next hpower =>
      rw [hpower.1] at *
      push_cast at *
      nlinarith
    · nlinarith

/-! ## The search -/

theorem ten_pow_mul (n : ℕ) (e : ℤ) : ((10 ^ n : ℕ) : ℚ) * 10 ^ e = 10 ^ (n + e) := by
  rw [Nat.cast_pow, Nat.cast_ofNat, ← zpow_natCast, ← zpow_add₀ (by norm_num)]

/-- The search ends at the first grid with a point in the interval. -/
structure IsHit (x : Binary64) (n d : ℕ) : Prop where
  pos : 1 ≤ n
  point : IsGridPoint x.interval x.value (x.lead - n + 1) d
  le : d ≤ 10 ^ n
  first : ∀ k : ℕ, 1 ≤ k → k < n → ∀ j : ℕ, ¬ x.interval.Contains (j * 10 ^ (x.lead - k + 1))
  shortest_eq : x.shortest = if d = 10 ^ n then ⟨1, x.lead + 1⟩ else ⟨d, x.lead - n + 1⟩

theorem exists_isHit (hx : x.Normal) : ∃ n d, IsHit x n d := by
  have haround := around_value hx
  have hfound : ((List.range' 1 17).findSome? fun n : ℕ =>
      (gridPoint? x.interval (x.lead - n + 1)).map fun d =>
        if d = Nat.pow 10 n then (⟨1, x.lead + 1⟩ : Digits) else ⟨d, x.lead - n + 1⟩).isSome := by
    refine List.findSome?_isSome_iff.2 ⟨17, by simp, ?_⟩
    rw [Option.isSome_map, Option.isSome_iff_ne_none, ne_eq, gridPoint?_eq_none_iff haround]
    obtain ⟨k, hk⟩ := exists_contains hx
    exact fun h => h k hk
  obtain ⟨found, heq⟩ := Option.isSome_iff_exists.1 hfound
  obtain ⟨before, n, after, hsplit, hn, hbefore⟩ := List.findSome?_eq_some_iff.1 heq
  obtain ⟨d, hd, hfound⟩ := Option.map_eq_some_iff.1 hn
  obtain ⟨k, -, rfl, hafter⟩ := List.range'_eq_append_iff.1 hsplit
  obtain ⟨hn, -, -⟩ := List.range'_eq_cons_iff.1 hafter.symm
  have hpoint := isGridPoint_of_gridPoint? haround hd
  refine ⟨n, d, by omega, hpoint, ?_, fun k' hpos hlt => ?_, ?_⟩
  · have hunit : (0 : ℚ) < 10 ^ (x.lead - n + 1) := zpow_pos (by norm_num) _
    have hlt := (lead_spec hx).2
    rw [show x.lead + 1 = n + (x.lead - n + 1) by ring, ← ten_pow_mul] at hlt
    have hd : (d : ℚ) < (10 ^ n : ℕ) + 1 := by
      rw [← mul_lt_mul_iff_left₀ hunit]
      linarith [hpoint.le]
    exact Nat.lt_succ_iff.1 (by exact_mod_cast hd)
  · have hmiss := hbefore k' (List.mem_range'_1.2 (by omega))
    rw [Option.map_eq_none_iff, gridPoint?_eq_none_iff haround] at hmiss
    exact hmiss
  · rw [shortest, if_neg hx.pos.ne']
    exact (congrArg (·.getD ⟨0, 0⟩) heq).trans hfound.symm

/-- A decimal in the interval is no nearer than some point of the grid for as many digits. -/
theorem exists_grid_point (hx : x.Normal) {c : Digits} (hc : x.interval.Contains c.value) {k : ℕ}
    (hpos : 1 ≤ k) (hdigits : c.digits < 10 ^ k) :
    ∃ j : ℕ, x.interval.Contains (j * 10 ^ (x.lead - k + 1)) ∧
      |x.value - j * 10 ^ (x.lead - k + 1)| ≤ |x.value - c.value| := by
  by_cases hfine : c.exponent < x.lead - k + 1
  · -- it lies below the power of ten under the number
    have hlow := (lead_spec hx).1
    have hlt : c.value < 10 ^ x.lead := by
      calc c.value < (10 ^ k : ℕ) * 10 ^ c.exponent := by
            rw [Digits.value]
            gcongr
        _ = 10 ^ (k + c.exponent) := ten_pow_mul k c.exponent
        _ ≤ 10 ^ x.lead := zpow_le_zpow_right₀ (by norm_num) (by omega)
    have hpower : ((10 ^ (k - 1) : ℕ) : ℚ) * 10 ^ (x.lead - k + 1) = 10 ^ x.lead := by
      rw [ten_pow_mul]
      congr 1
      omega
    refine ⟨10 ^ (k - 1), ?_, ?_⟩
    · rw [hpower]
      exact hc.between (contains_value hx) hlt.le hlow
    · rw [hpower, abs_of_nonneg (by linarith), abs_of_nonneg (by linarith)]
      linarith
  · have hgrid : ((c.digits * 10 ^ (c.exponent - (x.lead - k + 1)).toNat : ℕ) : ℚ) *
        10 ^ (x.lead - k + 1) = c.value := by
      rw [Nat.cast_mul, mul_assoc, ten_pow_mul, Int.toNat_of_nonneg (by omega), sub_add_cancel,
        Digits.value]
    refine ⟨_, ?_, (congrArg (|x.value - ·|) hgrid).le⟩
    rw [hgrid]
    exact hc

theorem IsHit.value_eq {n d : ℕ} (h : IsHit x n d) :
    x.shortest.value = d * 10 ^ (x.lead - n + 1) := by
  rw [h.shortest_eq]
  split
  · next hcarry =>
    rw [hcarry, ten_pow_mul, Digits.value, Nat.cast_one, one_mul]
    congr 1
    ring
  · rfl

theorem IsHit.digits_lt {n d : ℕ} (h : IsHit x n d) : x.shortest.digits < 10 ^ n := by
  rw [h.shortest_eq]
  split
  · exact Nat.one_lt_pow (by have := h.pos; omega) (by norm_num)
  · next hcarry => exact lt_of_le_of_ne h.le hcarry

end

/-! ## Decimals that read back -/

section

variable {x : Binary64} {negative : Bool} {c : Digits}

theorem digits_pos_of_contains (hx : x.Normal) (hc : x.interval.Contains c.value) :
    0 < c.digits := by
  have hvalue := pos_of_contains hx hc
  rw [Digits.value, mul_pos_iff_of_pos_right (zpow_pos (by norm_num) _)] at hvalue
  exact_mod_cast hvalue

/-- What rounds to a number is of a size that is not refused or taken for zero unseen. -/
theorem size_of_contains (hx : x.Normal) (hc : x.interval.Contains c.value) :
    -330 ≤ (Nat.toDigits 10 c.digits).length + c.exponent ∧
      (Nat.toDigits 10 c.digits).length + c.exponent ≤ 310 := by
  have hten : (0 : ℚ) < 10 ^ c.exponent := zpow_pos (by norm_num) _
  have hleast := hx.least
  have hgreatest := hx.greatest
  obtain ⟨hbelow, habove⟩ := zpow_bounds_of_contains hx hc
  obtain ⟨hlow, hhigh⟩ := pow_length_toDigits (digits_pos_of_contains hx hc)
  have hlength : 0 < (Nat.toDigits 10 c.digits).length := Nat.length_toDigits_pos
  generalize (Nat.toDigits 10 c.digits).length = length at *
  constructor
  · by_contra hsmall
    have hpow : (2 : ℚ) ^ (1075 : ℤ) ≤ 10 ^ (331 : ℤ) :=
      two_zpow_le_ten_zpow (show 2 ^ 43 ≤ 10 ^ 13 by norm_num) (show 1075 ≤ 43 * 25 by norm_num)
        (by norm_num)
    refine absurd hbelow (not_le.2 ?_)
    calc c.value < (10 ^ length : ℕ) * 10 ^ c.exponent := by
          rw [Digits.value]
          gcongr
      _ = 10 ^ (length + c.exponent) := ten_pow_mul _ _
      _ ≤ 10 ^ (-331 : ℤ) := zpow_le_zpow_right₀ (by norm_num) (by omega)
      _ ≤ 2 ^ (-1075 : ℤ) := by
          rw [zpow_neg, zpow_neg]
          exact inv_anti₀ (zpow_pos two_pos _) hpow
      _ ≤ 2 ^ (x.exponent - 1) := zpow_le_zpow_right₀ one_le_two (by omega)
  · by_contra hlarge
    have hpow : (2 : ℚ) ^ (1024 : ℤ) ≤ 10 ^ (310 : ℤ) :=
      two_zpow_le_ten_zpow (show 2 ^ 205 ≤ 10 ^ 62 by norm_num) (show 1024 ≤ 205 * 5 by norm_num)
        (by norm_num)
    refine absurd habove (not_lt.2 ?_)
    calc (2 : ℚ) ^ (53 + x.exponent) ≤ 2 ^ (1024 : ℤ) :=
          zpow_le_zpow_right₀ one_le_two (by omega)
      _ ≤ 10 ^ (310 : ℤ) := hpow
      _ ≤ 10 ^ ((length - 1 : ℕ) + c.exponent) := zpow_le_zpow_right₀ (by norm_num) (by omega)
      _ = (10 ^ (length - 1) : ℕ) * 10 ^ c.exponent := (ten_pow_mul _ _).symm
      _ ≤ c.value := by
          rw [Digits.value]
          gcongr

theorem ofDecimal_eq_some_iff (hx : x.Normal) :
    ofDecimal negative c.digits c.exponent = some x ↔
      x.negative = negative ∧ x.interval.Contains c.value := by
  have hexact {num den : ℕ} (hden : 0 < den) (hvalue : (num : ℚ) / den = c.value) :
      nearest negative num den = some x ↔ x.negative = negative ∧ x.interval.Contains c.value := by
    rw [nearest_eq_some_iff hden hx, hvalue]
  simp only [ofDecimal]
  split
  · next hzero =>
    constructor
    · intro h
      cases h
      exact absurd hx.pos (Nat.lt_irrefl 0)
    · rintro ⟨-, hc⟩
      have hpos := digits_pos_of_contains hx hc
      have hsize := (size_of_contains hx hc).1
      omega
  · split
    · next hlarge =>
      constructor
      · intro h
        cases h
      · rintro ⟨-, hc⟩
        have hsize := (size_of_contains hx hc).2
        omega
    · split
      · next he =>
        refine hexact one_pos ?_
        rw [Nat.cast_mul, cast_pow_toNat 10 he, Nat.cast_ofNat, Nat.cast_one, div_one, Digits.value]
      · next he =>
        refine hexact (Nat.pow_pos (by norm_num)) ?_
        rw [cast_pow_toNat 10 (by omega), Nat.cast_ofNat, zpow_neg, div_inv_eq_mul, Digits.value]

/-- A decimal is read as a number. -/
def Reads (x : Binary64) (c : Digits) : Prop :=
  ofDecimal x.negative c.digits c.exponent = some x

/-- A decimal that is read as the number, with the fewest digits, and the nearest of those. -/
structure IsShortest (x : Binary64) (d : Digits) : Prop where
  reads : x.Reads d
  fewest : ∀ c, x.Reads c → ∀ k, c.digits < 10 ^ k → d.digits < 10 ^ k
  nearest : ∀ c, x.Reads c → (∀ k, d.digits < 10 ^ k → c.digits < 10 ^ k) →
    |x.value - d.value| ≤ |x.value - c.value|

theorem reads_iff (hx : x.Normal) : x.Reads c ↔ x.interval.Contains c.value := by
  rw [Reads, ofDecimal_eq_some_iff hx]
  exact and_iff_right rfl

/-- The digits that are written for a number are read as it, no decimal with fewer digits is, and
none with as many is nearer. -/
theorem isShortest_shortest (hx : x.Normal) : IsShortest x x.shortest := by
  obtain ⟨n, d, hhit⟩ := exists_isHit hx
  refine ⟨?_, fun c hc k hk => ?_, fun c hc hk => ?_⟩
  · rw [reads_iff hx, hhit.value_eq]
    exact hhit.point.contains
  · rw [reads_iff hx] at hc
    have hpos : 1 ≤ k := by
      by_contra hzero
      obtain rfl : k = 0 := by omega
      exact absurd hk (not_lt.2 (digits_pos_of_contains hx hc))
    obtain ⟨j, hj, -⟩ := exists_grid_point hx hc hpos hk
    have hn : n ≤ k := not_lt.1 fun hlt => hhit.first k hpos hlt j hj
    exact hhit.digits_lt.trans_le (Nat.pow_le_pow_right (by norm_num) hn)
  · rw [reads_iff hx] at hc
    obtain ⟨j, hj, hnear⟩ := exists_grid_point hx hc hhit.pos (hk n hhit.digits_lt)
    rw [hhit.value_eq]
    exact (hhit.point.nearest j hj).trans hnear

example : shortest ⟨false, 0x1999999999999A, -56⟩ = ⟨1, -1⟩ := by decide +kernel
example : shortest ⟨false, 1, -1074⟩ = ⟨5, -324⟩ := by decide +kernel
example : shortest ⟨false, 2 ^ 53 - 1, 971⟩ = ⟨17976931348623157, 292⟩ := by decide +kernel

/-- Whatever number is built, what is written for it is read as it. -/
theorem reads_shortest (hx : x.WellFormed) : x.Reads x.shortest := by
  rcases hx with hx | hzero
  · exact (isShortest_shortest hx).reads
  · rw [hzero]
    rfl

end

end Binary64

end EndpointBindings.Decimal
