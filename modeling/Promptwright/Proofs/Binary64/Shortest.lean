import Mathlib.Algebra.Order.Field.Power
import Mathlib.Data.Rat.Cast.Order
import Mathlib.Tactic.FieldSimp
import Mathlib.Tactic.Linarith
import Mathlib.Tactic.NormNum
import Mathlib.Tactic.Positivity
import Mathlib.Tactic.Ring
import Promptwright.Binary64.Decimal

/-!
# Shortest decimals name one number

`Binary64.shortest` finds a decimal that rounds to the given number: one that lies in the interval
of values that are closer to it than to its neighbours.  The intervals of different numbers have
nothing in common, so the decimal tells which number it was made from.

All values are rational numbers here, and the pairs of numerators and denominators that the search
works with are related to them once, in `scaleRatio_value` and `scaleTen_value`.

## Key results

- `ten_pow_leadingDigit_le`: the leading digit is not overestimated
- `roundsTo_of_withDigits?`: a decimal that is found rounds to the number
- `exists_withDigits?`: seventeen digits are enough, as `ends_of_fine` shows
- `roundsTo_shortest`: the shortest decimal rounds to the number
- `eq_of_roundsTo`: no other number has the same decimal
-/

namespace Promptwright

/-- The value of a decimal. -/
def Decimal.value (d : Decimal) : ℚ := d.digits * 10 ^ d.exponent

/-- Moving factors of ten from the digits to the exponent changes no value. -/
theorem Decimal.value_trim (fuel : Nat) (d : Decimal) : (d.trim fuel).value = d.value := by
  induction fuel generalizing d with
  | zero => rfl
  | succ fuel ih =>
    obtain ⟨n, k⟩ := d
    rw [Decimal.trim]
    split
    next h =>
      have hn : (n : ℚ) = 10 * (n / 10 : Nat) := by
        have hdiv : n = 10 * (n / 10) := by omega
        exact_mod_cast hdiv
      rw [ih, Decimal.value, Decimal.value, zpow_add_one₀ (by norm_num), hn]
      push_cast
      ring
    next => rfl

namespace Binary64

/-! ## Scaling -/

/-- What scaling by a power of a base does to a ratio. -/
theorem scaled_value (base : Nat) (hbase : 0 < base) (num : Nat) {den : Nat} (hden : 0 < den)
    {k : Int} {r : Nat × Nat} (hr : r = if 0 ≤ k then (num * Nat.pow base k.toNat, den)
      else (num, den * Nat.pow base (-k).toNat)) :
    0 < r.2 ∧ (r.1 : ℚ) = num / den * (base : ℚ) ^ k * r.2 := by
  have hden' : (den : ℚ) ≠ 0 := by exact_mod_cast hden.ne'
  have hbase' : (base : ℚ) ≠ 0 := by exact_mod_cast hbase.ne'
  subst hr
  split
  next hk =>
    refine ⟨hden, ?_⟩
    have hpow : (base : ℚ) ^ k = (base : ℚ) ^ k.toNat := by
      conv => lhs; rw [← Int.toNat_of_nonneg hk]
      exact zpow_natCast _ k.toNat
    simp only [Nat.pow_eq, Nat.cast_mul, Nat.cast_pow, hpow]
    field_simp
  next hk =>
    refine ⟨Nat.mul_pos hden (Nat.pow_pos hbase), ?_⟩
    have hpow : (base : ℚ) ^ k = ((base : ℚ) ^ (-k).toNat)⁻¹ := by
      rw [← zpow_natCast, Int.toNat_of_nonneg (by omega), zpow_neg, inv_inv]
    simp only [Nat.pow_eq, Nat.cast_mul, Nat.cast_pow, hpow]
    field_simp

/-- What scaling by a power of two does to a ratio. -/
theorem scaleRatio_value (num : Nat) {den : Nat} (hden : 0 < den) (k : Int) :
    0 < (scaleRatio num den k).2 ∧
      ((scaleRatio num den k).1 : ℚ) = num / den * 2 ^ k * (scaleRatio num den k).2 :=
  scaled_value 2 (by decide) num hden rfl

/-- What scaling by a power of ten does to a ratio. -/
theorem scaleTen_value (num : Nat) {den : Nat} (hden : 0 < den) (k : Int) :
    0 < (scaleTen num den k).2 ∧
      ((scaleTen num den k).1 : ℚ) = num / den * 10 ^ k * (scaleTen num den k).2 :=
  scaled_value 10 (by decide) num hden rfl

/-- The denominator of a scaled ratio does not depend on the numerator. -/
theorem scaleTen_snd (num num' den : Nat) (k : Int) :
    (scaleTen num den k).2 = (scaleTen num' den k).2 := by
  rw [scaleTen, scaleTen]
  split <;> rfl

/-- The denominator of a scaled ratio does not depend on the numerator. -/
theorem scaleRatio_snd (num num' den : Nat) (k : Int) :
    (scaleRatio num den k).2 = (scaleRatio num' den k).2 := by
  rw [scaleRatio, scaleRatio]
  split <;> rfl

/-- A scaled ratio that is at least one comes from a ratio that is at least the power. -/
theorem zpow_le_of_scaled {base x : ℚ} (hbase : 0 < base) {k : Int} {n d : Nat} (hd : 0 < d)
    (hn : (n : ℚ) = x * base ^ (-k) * d) (h : d ≤ n) : base ^ k ≤ x := by
  have hd' : (0 : ℚ) < d := by exact_mod_cast hd
  have hpow : (0 : ℚ) < base ^ k := zpow_pos hbase k
  have hle : (d : ℚ) ≤ x / base ^ k * d := by
    rw [div_eq_mul_inv, ← zpow_neg, ← hn]
    exact_mod_cast h
  have hone : 1 ≤ x / base ^ k := by
    by_contra hlt
    have := mul_lt_mul_of_pos_right (not_le.mp hlt) hd'
    linarith
  exact (one_le_div hpow).mp hone

/-! ## Leading bits and digits -/

/-- The leading bit is not overestimated. -/
theorem two_pow_leadingBit_le {num den : Nat} (hnum : 0 < num) (hden : 0 < den) :
    (2 : ℚ) ^ leadingBit num den ≤ num / den := by
  obtain ⟨hd, hn⟩ := scaleRatio_value num hden (-(num.log2 - den.log2 : Int))
  rw [leadingBit]
  dsimp only
  split
  next h => exact zpow_le_of_scaled (by norm_num) hd hn h
  next =>
    -- the logarithms of both parts are rounded down
    have hnum' : (2 : ℚ) ^ (num.log2 : Int) ≤ num := by
      rw [zpow_natCast]
      exact_mod_cast Nat.log2_self_le hnum.ne'
    have hden' : (den : ℚ) ≤ 2 ^ (den.log2 + 1 : Int) := by
      have hlt : den < 2 ^ (den.log2 + 1) := Nat.lt_log2_self
      have hcast : (den : ℚ) ≤ 2 ^ (den.log2 + 1) := by exact_mod_cast hlt.le
      exact_mod_cast hcast
    have hpos : (0 : ℚ) < den := by exact_mod_cast hden
    rw [le_div_iff₀ hpos]
    calc (2 : ℚ) ^ ((num.log2 : Int) - den.log2 - 1) * den
        ≤ 2 ^ ((num.log2 : Int) - den.log2 - 1) * 2 ^ (den.log2 + 1 : Int) := by gcongr
      _ = 2 ^ (num.log2 : Int) := by rw [← zpow_add₀ (by norm_num)]; congr 1; omega
      _ ≤ num := hnum'

/-- The leading bit is at least the difference of the rounded logarithms, up to one. -/
theorem sub_le_leadingBit (num den : Nat) :
    (num.log2 : Int) - den.log2 - 1 ≤ leadingBit num den := by
  rw [leadingBit]
  dsimp only
  split <;> omega

/-- The estimate of `log 2 / log 10` is good enough for the numbers from one on. -/
theorem ten_pow_le_two_pow : ∀ n < 1101, 10 ^ (n * 30103 / 100000) ≤ 10 * 2 ^ n := by
  decide +kernel

/-- The estimate of `log 2 / log 10` is good enough for the numbers below one. -/
theorem two_pow_le_ten_pow : ∀ n < 1101, 2 ^ n ≤ 10 ^ ((n * 30103 + 99999) / 100000 + 1) := by
  decide +kernel

/-- The estimate of the leading digit is too great by less than one, for all leading bits that
numbers have. -/
theorem ten_pow_estimate_le {b : Int} (hlow : -1100 ≤ b) (hhigh : b ≤ 1100) :
    (10 : ℚ) ^ ((b * 30103).fdiv 100000 - 1) ≤ 2 ^ b := by
  -- the exponents are natural numbers in a range for which the bounds have been computed
  obtain ⟨n, rfl | rfl⟩ := b.eq_nat_or_neg
  · have hbound : n < 1101 := by omega
    have hle : (10 : ℚ) ^ (n * 30103 / 100000) ≤ 10 * 2 ^ n := by
      exact_mod_cast ten_pow_le_two_pow n hbound
    have hdiv : ((n : Int) * 30103).fdiv 100000 = (n * 30103 / 100000 : Nat) := by
      rw [Int.fdiv_eq_ediv_of_nonneg _ (by decide)]
      omega
    rw [hdiv, zpow_sub_one₀ (by norm_num), zpow_natCast, zpow_natCast,
      ← div_eq_mul_inv, div_le_iff₀ (by norm_num)]
    linarith
  · have hbound : n < 1101 := by omega
    have hle : (2 : ℚ) ^ n ≤ 10 ^ ((n * 30103 + 99999) / 100000 + 1) := by
      exact_mod_cast two_pow_le_ten_pow n hbound
    have hdiv : (-(n : Int) * 30103).fdiv 100000 - 1 =
        -((n * 30103 + 99999) / 100000 + 1 : Nat) := by
      rw [Int.fdiv_eq_ediv_of_nonneg _ (by decide)]
      omega
    rw [hdiv, zpow_neg, zpow_neg, zpow_natCast, zpow_natCast]
    exact inv_anti₀ (by positivity) hle

/-- The leading digit is not overestimated. -/
theorem ten_pow_leadingDigit_le {num den : Nat} (hnum : 0 < num) (hden : 0 < den)
    (hlow : -1100 ≤ leadingBit num den) (hhigh : leadingBit num den ≤ 1100) :
    (10 : ℚ) ^ leadingDigit num den ≤ num / den := by
  have hscaled := fun p => scaleTen_value num hden (-p)
  rw [leadingDigit]
  dsimp only
  split
  next h => exact zpow_le_of_scaled (by norm_num) (hscaled _).1 (hscaled _).2 h
  next =>
    split
    next h => exact zpow_le_of_scaled (by norm_num) (hscaled _).1 (hscaled _).2 h
    next => exact (ten_pow_estimate_le hlow hhigh).trans (two_pow_leadingBit_le hnum hden)

/-! ## Numbers of the format -/

/-- A mantissa and an exponent that a finite number of the format can have. -/
structure Representable (m : Nat) (e : Int) : Prop where
  mantissa_lt : m < 2 * hiddenBit
  normal : hiddenBit ≤ m ∨ e = minExponent
  minExponent_le : minExponent ≤ e
  le_maxExponent : e ≤ maxExponent

/-- A value that rounds to `m · 2 ^ e`: it lies in the interval of the number, and an end of it
counts only if the mantissa is even. -/
structure RoundsTo (m : Nat) (e : Int) (x : ℚ) : Prop where
  low_le : ((roundingInterval m e).1 : ℚ) * 2 ^ (e - 2) ≤ x
  le_high : x ≤ (roundingInterval m e).2 * 2 ^ (e - 2)
  low_lt : m % 2 = 1 → ((roundingInterval m e).1 : ℚ) * 2 ^ (e - 2) < x
  lt_high : m % 2 = 1 → x < (roundingInterval m e).2 * 2 ^ (e - 2)

variable {m m' : Nat} {e e' : Int} {x : ℚ}

/-- Where the intervals of two numbers meet, one starts before the other one ends. -/
theorem RoundsTo.interval_le (h : RoundsTo m e x) (h' : RoundsTo m' e' x) (he : e ≤ e') :
    (roundingInterval m' e').1 * 2 ^ (e' - e).toNat ≤ (roundingInterval m e).2 ∧
      (m % 2 = 1 ∨ m' % 2 = 1 →
        (roundingInterval m' e').1 * 2 ^ (e' - e).toNat < (roundingInterval m e).2) := by
  have hunit : (0 : ℚ) < 2 ^ (e - 2) := by positivity
  -- the ends of both intervals are counted in quarters of the finer spacing
  have hscale : (2 : ℚ) ^ (e' - 2) = 2 ^ (e' - e).toNat * 2 ^ (e - 2) := by
    rw [← zpow_natCast, Int.toNat_of_nonneg (by omega), ← zpow_add₀ (by norm_num)]
    congr 1
    omega
  have hlow := h'.low_le
  have hlow' := h'.low_lt
  rw [hscale, ← mul_assoc] at hlow hlow'
  constructor
  · have hle := le_of_mul_le_mul_right (hlow.trans h.le_high) hunit
    exact_mod_cast hle
  · rintro (hodd | hodd)
    · have hlt := lt_of_mul_lt_mul_right (hlow.trans_lt (h.lt_high hodd)) hunit.le
      exact_mod_cast hlt
    · have hlt := lt_of_mul_lt_mul_right ((hlow' hodd).trans_le h.le_high) hunit.le
      exact_mod_cast hlt

/-- The lower end of an interval. -/
theorem roundingInterval_fst (m : Nat) (e : Int) :
    (roundingInterval m e).1 = 4 * m - 2 ∨
      m = hiddenBit ∧ minExponent < e ∧ (roundingInterval m e).1 = 4 * m - 1 := by
  rw [roundingInterval]
  dsimp only
  split
  next h => exact .inr ⟨h.1, h.2, rfl⟩
  next => exact .inl rfl

/-- A value that rounds to two numbers does so for no two different exponents. -/
theorem RoundsTo.not_lt (h : RoundsTo m e x) (h' : RoundsTo m' e' x) (hm : Representable m e)
    (hnormal : hiddenBit ≤ m' ∨ e' = minExponent) : ¬e < e' := by
  intro he
  obtain ⟨hle, hlt⟩ := h.interval_le h' he.le
  have hpositive : minExponent < e' := hm.minExponent_le.trans_lt he
  have hmin : hiddenBit ≤ m' := hnormal.resolve_right hpositive.ne'
  have htwo : 2 ≤ 2 ^ (e' - e).toNat := Nat.le_self_pow (by omega) 2
  have hscale : (roundingInterval m' e').1 * 2 ≤
      (roundingInterval m' e').1 * 2 ^ (e' - e).toNat := Nat.mul_le_mul_left _ htwo
  have hhigh : (roundingInterval m e).2 = 4 * m + 2 := rfl
  have hmlt := hm.mantissa_lt
  -- only the greatest mantissa comes that far, and it is odd
  have hlow : 4 * hiddenBit - 1 ≤ (roundingInterval m' e').1 := by
    by_cases hmin : m' = hiddenBit
    · rw [roundingInterval, if_pos ⟨hmin, hpositive⟩, hmin]
    · obtain hlow | ⟨hmin', -⟩ := roundingInterval_fst m' e'
      · rw [hlow]
        simp only [hiddenBit] at *
        omega
      · exact absurd hmin' hmin
  simp only [hiddenBit] at *
  omega

/-- A value rounds to one number only. -/
theorem eq_of_roundsTo (h : RoundsTo m e x) (h' : RoundsTo m' e' x) (hm : Representable m e)
    (hm' : Representable m' e') : m = m' ∧ e = e' := by
  have he : e = e' :=
    le_antisymm (not_lt.mp (h'.not_lt h hm' hm.normal)) (not_lt.mp (h.not_lt h' hm hm'.normal))
  subst he
  refine ⟨?_, rfl⟩
  have hpow : 2 ^ (e - e).toNat = 1 := by simp
  obtain ⟨hle, hlt⟩ := h.interval_le h' le_rfl
  obtain ⟨hle', hlt'⟩ := h'.interval_le h le_rfl
  have hhigh : (roundingInterval m e).2 = 4 * m + 2 := rfl
  have hhigh' : (roundingInterval m' e).2 = 4 * m' + 2 := rfl
  rw [hpow, Nat.mul_one] at hle hlt hle' hlt'
  obtain hlow | ⟨-, -, hlow⟩ := roundingInterval_fst m e <;>
    obtain hlow' | ⟨-, -, hlow'⟩ := roundingInterval_fst m' e <;> omega

/-- A value that rounds to a positive number is positive. -/
theorem RoundsTo.pos (h : RoundsTo m e x) (hpos : 0 < m) : 0 < x := by
  have hlow : 0 < (roundingInterval m e).1 := by
    obtain hlow | ⟨-, -, hlow⟩ := roundingInterval_fst m e <;> omega
  have hunit : (0 : ℚ) < 2 ^ (e - 2) := by positivity
  exact (mul_pos (by exact_mod_cast hlow) hunit).trans_le h.low_le

/-! ## The search -/

/-- A whole number of quarters of `2 ^ e` on the grid of `10 ^ k`, as the search for decimals of
`m · 2 ^ e` writes it. -/
def onGrid (m : Nat) (e k : Int) (n : Nat) : Nat × Nat :=
  scaleTen (scaleRatio n 1 (e - 2)).1 (scaleRatio (4 * m) 1 (e - 2)).2 (-k)

/-- The exponent of the decimals of `m · 2 ^ e` with so many digits. -/
def gridExponent (m : Nat) (e : Int) (count : Nat) : Int :=
  leadingDigit (scaleRatio (4 * m) 1 (e - 2)).1 (scaleRatio (4 * m) 1 (e - 2)).2 - count + 1

/-- Whether a decimal on the grid of `10 ^ k` rounds to `m · 2 ^ e`. -/
def insideGrid (m : Nat) (e k : Int) (c : Nat) : Bool :=
  let step := (onGrid m e k (4 * m)).2
  let low := (onGrid m e k (roundingInterval m e).1).1
  let high := (onGrid m e k (roundingInterval m e).2).1
  if m % 2 = 0 then decide (low ≤ c * step) && decide (c * step ≤ high)
  else decide (low < c * step) && decide (c * step < high)

/-- The choice between two neighbours on the grid of `10 ^ k`. -/
def chosen (tie : Tie) (inside : Nat → Bool) (value step : Nat) (k : Int) : Option Decimal :=
  let c := value / step
  let below := inside c && decide (0 < c)
  let above := inside (c + 1)
  if below && above then
    let rest := 2 * (value % step)
    let down := rest < step || (rest == step && tie == .even && c % 2 == 0)
    some (if down then ⟨c, k⟩ else ⟨c + 1, k⟩)
  else if below then some ⟨c, k⟩
  else if above then some ⟨c + 1, k⟩
  else none

variable {tie : Tie} {inside : Nat → Bool} {value step count : Nat} {k : Int} {d : Decimal}

/-- A decimal of a given number of digits is one of two neighbours on a grid. -/
theorem withDigits?_eq_chosen (tie : Tie) (m : Nat) (e : Int) (count : Nat) :
    withDigits? tie m e count =
      chosen tie (insideGrid m e (gridExponent m e count))
        (onGrid m e (gridExponent m e count) (4 * m)).1
        (onGrid m e (gridExponent m e count) (4 * m)).2 (gridExponent m e count) := by
  unfold withDigits?
  simp only [chosen, insideGrid, onGrid, gridExponent]
  congr

/-- What is chosen is inside. -/
theorem inside_of_chosen (h : chosen tie inside value step k = some d) :
    inside d.digits = true ∧ 0 < d.digits ∧ d.exponent = k := by
  rw [chosen] at h
  dsimp only at h
  -- below, above or not at all: whatever is taken has been tested
  split at h
  next hboth =>
    rw [Bool.and_eq_true, Bool.and_eq_true, decide_eq_true_eq] at hboth
    obtain rfl := Option.some.inj h
    split
    · exact ⟨hboth.1.1, hboth.1.2, rfl⟩
    · exact ⟨hboth.2, Nat.succ_pos _, rfl⟩
  next =>
    split at h
    next hbelow =>
      rw [Bool.and_eq_true, decide_eq_true_eq] at hbelow
      obtain rfl := Option.some.inj h
      exact ⟨hbelow.1, hbelow.2, rfl⟩
    next =>
      split at h
      next habove =>
        obtain rfl := Option.some.inj h
        exact ⟨habove, Nat.succ_pos _, rfl⟩
      next => cases h

/-- Something is chosen if one of the neighbours is inside. -/
theorem exists_chosen (h : inside (value / step) = true ∧ 0 < value / step ∨
    inside (value / step + 1) = true) : ∃ d, chosen tie inside value step k = some d := by
  rw [chosen]
  dsimp only
  split
  · exact ⟨_, rfl⟩
  · split
    · exact ⟨_, rfl⟩
    next hbelow =>
      rw [Bool.and_eq_true, decide_eq_true_eq] at hbelow
      rw [if_pos (h.resolve_left hbelow)]
      exact ⟨_, rfl⟩

/-- The ratio that the search starts from. -/
theorem scaleRatio_num (m : Nat) (e : Int) : 0 < (scaleRatio (4 * m) 1 (e - 2)).2 ∧
    ((scaleRatio (4 * m) 1 (e - 2)).1 : ℚ) / (scaleRatio (4 * m) 1 (e - 2)).2 = m * 2 ^ e := by
  obtain ⟨hden, hnum⟩ := scaleRatio_value (4 * m) Nat.one_pos (e - 2)
  have hden' : ((scaleRatio (4 * m) 1 (e - 2)).2 : ℚ) ≠ 0 := by exact_mod_cast hden.ne'
  refine ⟨hden, ?_⟩
  rw [hnum, mul_div_assoc, div_self hden', zpow_sub₀ (by norm_num)]
  push_cast
  norm_num
  ring

/-- The numerator that the search starts from. -/
theorem scaleRatio_num_pos (hpos : 0 < m) (e : Int) : 0 < (scaleRatio (4 * m) 1 (e - 2)).1 := by
  rw [scaleRatio]
  split
  · exact Nat.mul_pos (by omega) (Nat.pow_pos (by decide))
  · omega

/-- The place of so many quarters on the grid.  The denominator is the same for all of them. -/
theorem onGrid_value (m n : Nat) (e k : Int) : 0 < (onGrid m e k (4 * m)).2 ∧
    ((onGrid m e k n).1 : ℚ) = n * 2 ^ (e - 2) / 10 ^ k * (onGrid m e k (4 * m)).2 := by
  have hsnd : (scaleRatio (4 * m) 1 (e - 2)).2 = (scaleRatio n 1 (e - 2)).2 := scaleRatio_snd ..
  obtain ⟨hden, hnum⟩ := scaleRatio_value n Nat.one_pos (e - 2)
  have hden' : ((scaleRatio n 1 (e - 2)).2 : ℚ) ≠ 0 := by exact_mod_cast hden.ne'
  rw [onGrid, onGrid, hsnd, scaleTen_snd _ (scaleRatio n 1 (e - 2)).1]
  obtain ⟨hstep, hvalue⟩ := scaleTen_value (scaleRatio n 1 (e - 2)).1 hden (-k)
  refine ⟨hstep, ?_⟩
  rw [hvalue, hnum, mul_div_assoc, div_self hden', zpow_neg]
  push_cast
  ring

/-- What is inside rounds to the number. -/
theorem insideGrid_iff (m : Nat) (e k : Int) (c : Nat) :
    insideGrid m e k c = true ↔ RoundsTo m e (Decimal.value ⟨c, k⟩) := by
  have hstep : (0 : ℚ) < (onGrid m e k (4 * m)).2 := by
    exact_mod_cast (onGrid_value m (4 * m) e k).1
  have hpow : (0 : ℚ) < 10 ^ k := by positivity
  -- the ends are compared on the grid, whose step is positive
  have hlow : ∀ n, (onGrid m e k n).1 ≤ c * (onGrid m e k (4 * m)).2 ↔
      (n : ℚ) * 2 ^ (e - 2) ≤ Decimal.value ⟨c, k⟩ := by
    intro n
    rw [← Nat.cast_le (α := ℚ), (onGrid_value m n e k).2, Nat.cast_mul,
      mul_le_mul_iff_left₀ hstep, div_le_iff₀ hpow, Decimal.value]
  have hhigh : ∀ n, c * (onGrid m e k (4 * m)).2 ≤ (onGrid m e k n).1 ↔
      Decimal.value ⟨c, k⟩ ≤ (n : ℚ) * 2 ^ (e - 2) := by
    intro n
    rw [← Nat.cast_le (α := ℚ), (onGrid_value m n e k).2, Nat.cast_mul,
      mul_le_mul_iff_left₀ hstep, le_div_iff₀ hpow, Decimal.value]
  rw [insideGrid]
  -- the ends belong to the interval of an even mantissa only
  split
  next heven =>
    rw [Bool.and_eq_true, decide_eq_true_eq, decide_eq_true_eq, hlow, hhigh]
    exact ⟨fun h => ⟨h.1, h.2, fun hodd => by omega, fun hodd => by omega⟩,
      fun h => ⟨h.low_le, h.le_high⟩⟩
  next hodd =>
    rw [Bool.and_eq_true, decide_eq_true_eq, decide_eq_true_eq, ← not_le, ← not_le, hlow, hhigh,
      not_le, not_le]
    exact ⟨fun h => ⟨h.1.le, h.2.le, fun _ => h.1, fun _ => h.2⟩,
      fun h => ⟨h.low_lt (by omega), h.lt_high (by omega)⟩⟩

/-- A decimal that is found rounds to the number. -/
theorem roundsTo_of_withDigits? (h : withDigits? tie m e count = some d) :
    RoundsTo m e d.value ∧ 0 < d.digits := by
  rw [withDigits?_eq_chosen] at h
  obtain ⟨hinside, hpos, hexp⟩ := inside_of_chosen h
  rw [← hexp] at hinside
  exact ⟨(insideGrid_iff m e d.exponent d.digits).mp hinside, hpos⟩

/-! ## Seventeen digits -/

/-- The leading bit of a number of the format. -/
theorem leadingBit_bounds (hm : Representable m e) (hpos : 0 < m) :
    -1100 ≤ leadingBit (scaleRatio (4 * m) 1 (e - 2)).1 (scaleRatio (4 * m) 1 (e - 2)).2 ∧
      leadingBit (scaleRatio (4 * m) 1 (e - 2)).1 (scaleRatio (4 * m) 1 (e - 2)).2 ≤ 1100 := by
  obtain ⟨hden, hvalue⟩ := scaleRatio_num m e
  have hmin := hm.minExponent_le
  have hmax := hm.le_maxExponent
  rw [minExponent] at hmin
  rw [maxExponent] at hmax
  constructor
  · -- the denominator is a power of two that is not too large
    have hlog : (scaleRatio (4 * m) 1 (e - 2)).2.log2 ≤ 1076 := by
      rw [scaleRatio]
      split
      · exact (by decide : Nat.log2 1 ≤ 1076)
      · rw [Nat.one_mul, Nat.pow_eq, Nat.log2_two_pow]
        omega
    have := sub_le_leadingBit (scaleRatio (4 * m) 1 (e - 2)).1 (scaleRatio (4 * m) 1 (e - 2)).2
    omega
  · have hnum : 0 < (scaleRatio (4 * m) 1 (e - 2)).1 := scaleRatio_num_pos hpos e
    have hmant : (m : ℚ) < 2 ^ (53 : Int) := by
      have := hm.mantissa_lt
      rw [hiddenBit] at this
      exact_mod_cast this
    have hpow : (2 : ℚ) ^ e ≤ 2 ^ (971 : Int) := zpow_le_zpow_right₀ (by norm_num) hmax
    have hlt : (2 : ℚ) ^ leadingBit (scaleRatio (4 * m) 1 (e - 2)).1
        (scaleRatio (4 * m) 1 (e - 2)).2 < 2 ^ (53 + 971 : Int) :=
      calc (2 : ℚ) ^ leadingBit (scaleRatio (4 * m) 1 (e - 2)).1 (scaleRatio (4 * m) 1 (e - 2)).2
          ≤ m * 2 ^ e := hvalue ▸ two_pow_leadingBit_le hnum hden
        _ < 2 ^ (53 : Int) * 2 ^ (971 : Int) :=
          mul_lt_mul hmant hpow (by positivity) (by positivity)
        _ = 2 ^ (53 + 971 : Int) := (zpow_add₀ two_ne_zero 53 971).symm
    have := (zpow_lt_zpow_iff_right₀ (by norm_num)).mp hlt
    omega

/-- A grid is fine enough if the ends of the interval are more than half a step away. -/
theorem ends_of_fine (hm : Representable m e) (hk : 10 ^ (k + 16) ≤ (m : ℚ) * 2 ^ e) :
    (onGrid m e k (4 * m)).2 ≤ (onGrid m e k (4 * m)).1 ∧
      2 * (onGrid m e k (roundingInterval m e).1).1 + (onGrid m e k (4 * m)).2 <
        2 * (onGrid m e k (4 * m)).1 ∧
      2 * (onGrid m e k (4 * m)).1 + (onGrid m e k (4 * m)).2 <
        2 * (onGrid m e k (roundingInterval m e).2).1 := by
  have hvalue := fun n => (onGrid_value m n e k).2
  have hstep : (0 : ℚ) < (onGrid m e k (4 * m)).2 := by
    exact_mod_cast (onGrid_value m (4 * m) e k).1
  have hpow : (0 : ℚ) < 10 ^ k := by positivity
  -- a quarter of a step of the number, in steps of the grid
  obtain ⟨quarter, hquarter⟩ : ∃ q : ℚ, q = 2 ^ (e - 2) / 10 ^ k := ⟨_, rfl⟩
  have hquarterPos : 0 < quarter := by rw [hquarter]; positivity
  have hfine : 10 ^ 16 ≤ 4 * m * quarter := by
    rw [hquarter, ← mul_div_assoc, le_div_iff₀ hpow, zpow_sub₀ two_ne_zero]
    rw [zpow_add₀ (by norm_num)] at hk
    norm_num at hk ⊢
    linarith
  have hmant : (m : ℚ) < 2 ^ 53 := by
    have := hm.mantissa_lt
    rw [hiddenBit] at this
    exact_mod_cast this
  have hhalf : 1 < 4 * quarter := by nlinarith
  have hpos : 0 < m := by
    rcases Nat.eq_zero_or_pos m with rfl | hpos
    · norm_num at hfine
    · exact hpos
  obtain ⟨gap, hgap, hlow⟩ : ∃ gap : ℚ, 1 < 2 * gap ∧
      ((roundingInterval m e).1 : ℚ) * quarter = 4 * m * quarter - gap := by
    obtain hlow | ⟨hhidden, -, hlow⟩ := roundingInterval_fst m e
    · refine ⟨2 * quarter, by linarith, ?_⟩
      rw [hlow, Nat.cast_sub (by omega)]
      push_cast
      ring
    · -- the gap is only half as wide, but such a number has more digits before the point
      refine ⟨quarter, ?_, ?_⟩
      · rw [hhidden, hiddenBit] at hfine
        norm_num at hfine
        linarith
      · rw [hlow, Nat.cast_sub (by omega)]
        push_cast
        ring
  have hends : ∀ n, ((onGrid m e k n).1 : ℚ) = n * quarter * (onGrid m e k (4 * m)).2 := by
    intro n
    rw [hvalue, hquarter, mul_div_assoc]
  refine ⟨?_, ?_, ?_⟩
  · have hone : (1 : ℚ) ≤ (4 * m : Nat) * quarter := by
      push_cast
      linarith
    have hle : ((onGrid m e k (4 * m)).2 : ℚ) ≤ (onGrid m e k (4 * m)).1 := by
      rw [hends]
      exact le_mul_of_one_le_left hstep.le hone
    exact_mod_cast hle
  · have hlt : 2 * ((onGrid m e k (roundingInterval m e).1).1 : ℚ) + (onGrid m e k (4 * m)).2 <
        2 * (onGrid m e k (4 * m)).1 := by
      rw [hends, hends, hlow]
      push_cast
      nlinarith only [mul_lt_mul_of_pos_right hgap hstep]
    exact_mod_cast hlt
  · have hhigh : ((roundingInterval m e).2 : ℚ) = 4 * m + 2 := by
      rw [roundingInterval]
      push_cast
      ring
    have hlt : 2 * ((onGrid m e k (4 * m)).1 : ℚ) + (onGrid m e k (4 * m)).2 <
        2 * (onGrid m e k (roundingInterval m e).2).1 := by
      rw [hends, hends, hhigh]
      push_cast
      nlinarith only [mul_lt_mul_of_pos_right hhalf hstep]
    exact_mod_cast hlt

/-- What lies strictly between the ends is inside. -/
theorem insideGrid_of_lt {c : Nat}
    (hlow : (onGrid m e k (roundingInterval m e).1).1 < c * (onGrid m e k (4 * m)).2)
    (hhigh : c * (onGrid m e k (4 * m)).2 < (onGrid m e k (roundingInterval m e).2).1) :
    insideGrid m e k c = true := by
  rw [insideGrid]
  split
  · rw [Bool.and_eq_true, decide_eq_true_eq, decide_eq_true_eq]
    exact ⟨hlow.le, hhigh.le⟩
  · rw [Bool.and_eq_true, decide_eq_true_eq, decide_eq_true_eq]
    exact ⟨hlow, hhigh⟩

/-- On a grid that is fine enough, one of the two neighbours of the number rounds to it. -/
theorem exists_insideGrid (hm : Representable m e) (hk : 10 ^ (k + 16) ≤ (m : ℚ) * 2 ^ e) :
    insideGrid m e k ((onGrid m e k (4 * m)).1 / (onGrid m e k (4 * m)).2) = true ∧
      0 < (onGrid m e k (4 * m)).1 / (onGrid m e k (4 * m)).2 ∨
    insideGrid m e k ((onGrid m e k (4 * m)).1 / (onGrid m e k (4 * m)).2 + 1) = true := by
  obtain ⟨hone, hlow, hhigh⟩ := ends_of_fine hm hk
  have hstep : 0 < (onGrid m e k (4 * m)).2 := (onGrid_value m (4 * m) e k).1
  have hdiv := Nat.div_add_mod' (onGrid m e k (4 * m)).1 (onGrid m e k (4 * m)).2
  have hrest := Nat.mod_lt (onGrid m e k (4 * m)).1 hstep
  by_cases hnear : 2 * ((onGrid m e k (4 * m)).1 % (onGrid m e k (4 * m)).2) ≤
      (onGrid m e k (4 * m)).2
  · exact .inl ⟨insideGrid_of_lt (by omega) (by omega), Nat.div_pos hone hstep⟩
  · refine .inr (insideGrid_of_lt ?_ ?_)
    · rw [Nat.succ_mul]
      omega
    · rw [Nat.succ_mul]
      omega

/-- Seventeen digits are enough. -/
theorem exists_withDigits? (tie : Tie) (hm : Representable m e) (hpos : 0 < m) :
    ∃ d, withDigits? tie m e 17 = some d := by
  obtain ⟨hden, hvalue⟩ := scaleRatio_num m e
  obtain ⟨hlow, hhigh⟩ := leadingBit_bounds hm hpos
  have hnum : 0 < (scaleRatio (4 * m) 1 (e - 2)).1 := scaleRatio_num_pos hpos e
  have hdigit := ten_pow_leadingDigit_le hnum hden hlow hhigh
  rw [hvalue] at hdigit
  rw [withDigits?_eq_chosen]
  refine exists_chosen (exists_insideGrid hm ?_)
  have hk : gridExponent m e 17 + 16 =
      leadingDigit (scaleRatio (4 * m) 1 (e - 2)).1 (scaleRatio (4 * m) 1 (e - 2)).2 := by
    rw [gridExponent]
    omega
  rwa [hk]

/-! ## The shortest decimal -/

/-- Trying more and more digits ends with a decimal that rounds to the number. -/
theorem roundsTo_shortestFrom (tie : Tie) (hm : Representable m e) (hpos : 0 < m) {fuel : Nat}
    (hcount : count + fuel = 17) : RoundsTo m e (shortestFrom tie m e count (fuel + 1)).value ∧
      0 < (shortestFrom tie m e count (fuel + 1)).digits := by
  induction fuel generalizing count with
  | zero =>
    -- this many digits always suffice
    obtain rfl : count = 17 := hcount
    obtain ⟨d, hd⟩ := exists_withDigits? tie hm hpos
    rw [shortestFrom, hd, Option.getD_some]
    exact roundsTo_of_withDigits? hd
  | succ fuel ih =>
    rw [shortestFrom]
    cases hd : withDigits? tie m e count with
    | none =>
      rw [Option.getD_none]
      exact ih (by omega)
    | some d =>
      rw [Option.getD_some]
      exact roundsTo_of_withDigits? hd

/-- The shortest decimal of a number rounds to it. -/
theorem roundsTo_shortest (tie : Tie) (hm : Representable m e) (hpos : 0 < m) :
    RoundsTo m e (shortest tie m e).value := by
  rw [shortest, if_neg hpos.ne', Decimal.value_trim]
  exact (roundsTo_shortestFrom tie hm hpos (by decide)).1

end Binary64

end Promptwright
