import Promptwright.Proofs.Binary64.Integers
import Promptwright.Proofs.Binary64.Shortest

/-!
# Rounding to the nearest number

`Binary64.round` finds the number whose interval of values holds a ratio.  As the intervals of
different numbers have nothing in common, a ratio that is known to round to a number is rounded to
this number.  So a decimal in the interval of a number, as the shortest one, is read as the number.

## Key results

- `round_eq_of_roundsTo`: rounding agrees with the intervals
- `neg_round`: the sign does not matter to rounding
- `nearestTo_eq`: a decimal in the interval of a number is rounded to it
-/

namespace Promptwright.Binary64

variable {num den m : Nat} {e : Int} {x q : ℚ}

/-! ## Quotients -/

/-- A quotient is at most a half away from the whole number that it is rounded to, and less than a
half if this number is odd. -/
theorem roundDiv_spec (num : Nat) (hden : 0 < den) :
    2 * (roundDiv num den * den) ≤ 2 * num + den ∧ 2 * num ≤ 2 * (roundDiv num den * den) + den ∧
      (roundDiv num den % 2 = 1 → 2 * (roundDiv num den * den) < 2 * num + den ∧
        2 * num < 2 * (roundDiv num den * den) + den) := by
  have hdiv := Nat.div_add_mod' num den
  have hrest := Nat.mod_lt num hden
  have hsucc : (num / den + 1) * den = num / den * den + den := Nat.succ_mul _ _
  -- down, up, and in the middle to the even one
  unfold roundDiv
  dsimp only
  split
  · omega
  · split
    · rw [hsucc]
      omega
    · split
      · omega
      · rw [hsucc]
        omega

/-- The same for rational numbers. -/
theorem roundDiv_bounds (num : Nat) (hden : 0 < den) :
    4 * (roundDiv num den : ℚ) - 2 ≤ 4 * (num / den) ∧
      4 * (num / den : ℚ) ≤ 4 * roundDiv num den + 2 ∧
      (roundDiv num den % 2 = 1 → 4 * (roundDiv num den : ℚ) - 2 < 4 * (num / den) ∧
        4 * (num / den : ℚ) < 4 * roundDiv num den + 2) := by
  obtain ⟨hlow, hhigh, hodd⟩ := roundDiv_spec num hden
  have hpos : (0 : ℚ) < den := by exact_mod_cast hden
  have hnum : (num : ℚ) = num / den * den := (div_mul_cancel₀ _ hpos.ne').symm
  -- with a name for the quotient, all bounds are linear in it
  generalize hy : (num / den : ℚ) = y at hnum ⊢
  have hlow' : 2 * (roundDiv num den * den : ℚ) ≤ 2 * num + den := by exact_mod_cast hlow
  have hhigh' : 2 * (num : ℚ) ≤ 2 * (roundDiv num den * den) + den := by exact_mod_cast hhigh
  rw [hnum] at hlow' hhigh'
  refine ⟨?_, ?_, fun h => ?_⟩
  · refine le_of_mul_le_mul_right ?_ hpos
    linarith
  · refine le_of_mul_le_mul_right ?_ hpos
    linarith
  · obtain ⟨hlt, hlt'⟩ := hodd h
    have hlt : 2 * (roundDiv num den * den : ℚ) < 2 * num + den := by exact_mod_cast hlt
    have hlt' : 2 * (num : ℚ) < 2 * (roundDiv num den * den) + den := by exact_mod_cast hlt'
    rw [hnum] at hlt hlt'
    constructor
    · refine lt_of_mul_lt_mul_right ?_ hpos.le
      linarith
    · refine lt_of_mul_lt_mul_right ?_ hpos.le
      linarith

/-! ## Leading bits -/

/-- A scaled ratio that is less than one comes from a ratio that is less than the power. -/
theorem lt_zpow_of_scaled {base x : ℚ} (hbase : 0 < base) {k : Int} {n d : Nat} (hd : 0 < d)
    (hn : (n : ℚ) = x * base ^ (-k) * d) (h : n < d) : x < base ^ k := by
  have hd' : (0 : ℚ) < d := by exact_mod_cast hd
  have hlt : x / base ^ k * d < d := by
    rw [div_eq_mul_inv, ← zpow_neg, ← hn]
    exact_mod_cast h
  have hone : x / base ^ k < 1 := by
    by_contra hle
    have := mul_le_mul_of_nonneg_right (not_lt.mp hle) hd'.le
    linarith
  exact (div_lt_one (zpow_pos hbase k)).mp hone

/-- The leading bit is not underestimated. -/
theorem lt_two_pow_leadingBit (num : Nat) (hden : 0 < den) :
    (num / den : ℚ) < 2 ^ (leadingBit num den + 1) := by
  obtain ⟨hd, hn⟩ := scaleRatio_value num hden (-(num.log2 - den.log2 : Int))
  rw [leadingBit]
  dsimp only
  split
  next =>
    -- the logarithm of the denominator is rounded down
    have hnum' : (num : ℚ) < 2 ^ (num.log2 + 1 : Int) := by
      have hlt : num < 2 ^ (num.log2 + 1) := Nat.lt_log2_self
      exact_mod_cast hlt
    have hden' : (2 : ℚ) ^ (den.log2 : Int) ≤ den := by
      rw [zpow_natCast]
      exact_mod_cast Nat.log2_self_le hden.ne'
    have hpos : (0 : ℚ) < den := by exact_mod_cast hden
    rw [div_lt_iff₀ hpos]
    calc (num : ℚ) < 2 ^ (num.log2 + 1 : Int) := hnum'
      _ = 2 ^ ((num.log2 : Int) - den.log2 + 1) * 2 ^ (den.log2 : Int) := by
        rw [← zpow_add₀ (by norm_num)]
        congr 1
        omega
      _ ≤ 2 ^ ((num.log2 : Int) - den.log2 + 1) * den := by gcongr
  next h =>
    rw [sub_add_cancel]
    exact lt_zpow_of_scaled (by norm_num) hd hn (not_le.mp h)

/-! ## Intervals -/

/-- What lies between the ends of an interval, in quarters of a step. -/
theorem roundsTo_of_quarters (hx : x = q * 2 ^ (e - 2)) (hlow : (roundingInterval m e).1 ≤ q)
    (hhigh : q ≤ (roundingInterval m e).2)
    (hodd : m % 2 = 1 → (roundingInterval m e).1 < q ∧ q < (roundingInterval m e).2) :
    RoundsTo m e x := by
  have hunit : (0 : ℚ) < 2 ^ (e - 2) := by positivity
  subst hx
  exact ⟨mul_le_mul_of_nonneg_right hlow hunit.le, mul_le_mul_of_nonneg_right hhigh hunit.le,
    fun h => mul_lt_mul_of_pos_right (hodd h).1 hunit,
    fun h => mul_lt_mul_of_pos_right (hodd h).2 hunit⟩

/-- A ratio lies in the interval of the whole number of steps that it is rounded to, if it is not
below the normal numbers with its exponent. -/
theorem roundsTo_roundDiv (hden : 0 < den) (hx : x = num / den * 2 ^ e)
    (hnormal : minExponent < e → (hiddenBit : ℚ) ≤ num / den) :
    RoundsTo (roundDiv num den) e x := by
  obtain ⟨hlow, hhigh, hodd⟩ := roundDiv_bounds num hden
  have hnonneg : (0 : ℚ) ≤ num / den := by positivity
  have hquarters : x = 4 * (num / den) * 2 ^ (e - 2) := by
    rw [hx, zpow_sub₀ two_ne_zero]
    ring
  generalize roundDiv num den = r at hlow hhigh hodd ⊢
  have htop : ((roundingInterval r e).2 : ℚ) = 4 * r + 2 := by
    rw [roundingInterval]
    push_cast
    ring
  have hhidden : (0 : ℚ) < hiddenBit := by
    rw [hiddenBit]
    norm_num
  refine roundsTo_of_quarters hquarters ?_ (htop ▸ hhigh) fun h => ⟨?_, htop ▸ (hodd h).2⟩
  · obtain hfst | ⟨rfl, he, hfst⟩ := roundingInterval_fst r e
    · rw [hfst]
      rcases Nat.eq_zero_or_pos r with rfl | hr
      · simpa using hnonneg
      · rw [Nat.cast_sub (by omega)]
        push_cast
        exact hlow
    · -- the interval of a power of two is narrower below, but the ratio is not below the power
      have := hnormal he
      rw [hfst, Nat.cast_sub (by decide)]
      push_cast
      linarith
  · obtain hfst | ⟨rfl, he, hfst⟩ := roundingInterval_fst r e
    · rw [hfst, Nat.cast_sub (by omega)]
      push_cast
      exact (hodd h).1
    · exact absurd h (by decide)

/-- A ratio that is rounded to twice the least normal mantissa lies in the interval of the next
power of two. -/
theorem roundsTo_carry (hden : 0 < den) (hx : x = num / den * 2 ^ e) (he : minExponent ≤ e)
    (hlt : (num / den : ℚ) < 2 * hiddenBit) (hcarry : roundDiv num den = 2 * hiddenBit) :
    RoundsTo hiddenBit (e + 1) x := by
  obtain ⟨hlow, -, -⟩ := roundDiv_bounds num hden
  -- above a power of two the interval reaches down only half as far
  have hfst : (roundingInterval hiddenBit (e + 1)).1 = 4 * hiddenBit - 1 := by
    rw [roundingInterval, if_pos ⟨rfl, by omega⟩]
  have hquarters : x = 2 * (num / den) * 2 ^ (e + 1 - 2) := by
    rw [hx, zpow_sub₀ two_ne_zero, zpow_add_one₀ two_ne_zero]
    ring
  rw [hcarry] at hlow
  push_cast at hlow
  refine roundsTo_of_quarters hquarters ?_ ?_ fun h => absurd h (by decide)
  · rw [hfst, Nat.cast_sub (by decide)]
    push_cast
    linarith
  · rw [roundingInterval]
    push_cast
    linarith

/-! ## Rounding -/

/-- Rounding gives a number in whose interval the ratio lies, unless its exponent is too great. -/
theorem exists_roundsTo_round (negative : Bool) (hnum : 0 < num) (hden : 0 < den) :
    ∃ m e, RoundsTo m e (num / den) ∧ m < 2 * hiddenBit ∧ (hiddenBit ≤ m ∨ e = minExponent) ∧
      minExponent ≤ e ∧ round negative num den 0 =
        if maxExponent < e then .infinite negative else .finite negative m e := by
  obtain ⟨e, he⟩ : ∃ e, max (leadingBit num den + 0 - 52) minExponent = e := ⟨_, rfl⟩
  obtain ⟨hd, hn⟩ := scaleRatio_value num hden (0 - e)
  simp only [round, if_neg hden.ne', if_neg hnum.ne', he]
  generalize (scaleRatio num den (0 - e)).1 = n, (scaleRatio num den (0 - e)).2 = d at hd hn ⊢
  have hd' : (0 : ℚ) < d := by exact_mod_cast hd
  have hunit : (0 : ℚ) < 2 ^ e := by positivity
  -- the ratio in steps of the numbers with the exponent
  have hsteps : (num / den : ℚ) = n / d * 2 ^ e := by
    rw [hn, zero_sub, mul_div_assoc, div_self hd'.ne', mul_one, mul_assoc, ← zpow_add₀ two_ne_zero,
      neg_add_cancel, zpow_zero, mul_one]
  have hmin : minExponent ≤ e := he ▸ le_max_right _ _
  have hlt : (n / d : ℚ) < 2 * hiddenBit := by
    refine lt_of_mul_lt_mul_right ?_ hunit.le
    calc (n / d : ℚ) * 2 ^ e < 2 ^ (leadingBit num den + 1) :=
          hsteps ▸ lt_two_pow_leadingBit num hden
      _ ≤ 2 ^ (53 + e) := zpow_le_zpow_right₀ (by norm_num) (by omega)
      _ = 2 * hiddenBit * 2 ^ e := by
        rw [zpow_add₀ two_ne_zero, hiddenBit]
        norm_num
  have hnormal : minExponent < e → (hiddenBit : ℚ) ≤ n / d := by
    intro hgt
    refine le_of_mul_le_mul_right ?_ hunit
    calc (hiddenBit : ℚ) * 2 ^ e = 2 ^ (52 + e) := by
          rw [zpow_add₀ two_ne_zero, hiddenBit]
          norm_num
      _ ≤ 2 ^ leadingBit num den := zpow_le_zpow_right₀ (by norm_num) (by omega)
      _ ≤ n / d * 2 ^ e := hsteps ▸ two_pow_leadingBit_le hnum hden
  obtain ⟨hlow, hhigh, -⟩ := roundDiv_bounds n hd
  by_cases hcarry : roundDiv n d = 2 * hiddenBit
  · rw [if_pos hcarry]
    exact ⟨hiddenBit, e + 1, roundsTo_carry hd hsteps hmin hlt hcarry, by decide, .inl le_rfl,
      by omega, rfl⟩
  · rw [if_neg hcarry]
    refine ⟨roundDiv n d, e, roundsTo_roundDiv hd hsteps hnormal, ?_, ?_, hmin, rfl⟩
    · have hle : (roundDiv n d : ℚ) < (2 * hiddenBit + 1 : Nat) := by
        push_cast
        linarith
      have := Nat.cast_lt.mp hle
      omega
    · rcases hmin.eq_or_lt with heq | hgt
      · exact .inr heq.symm
      · have hle : (hiddenBit : ℚ) < (roundDiv n d + 1 : Nat) := by
          have := hnormal hgt
          push_cast
          linarith
        exact .inl (Nat.lt_succ_iff.mp (Nat.cast_lt.mp hle))

/-- A ratio that lies in the interval of a number is rounded to this number. -/
theorem round_eq_of_roundsTo (negative : Bool) (hm : Representable m e) (hpos : 0 < m)
    (hden : 0 < den) (h : RoundsTo m e (num / den)) :
    round negative num den 0 = .finite negative m e := by
  have hnum : 0 < num := by
    by_contra hzero
    obtain rfl : num = 0 := by omega
    exact absurd (h.pos hpos) (by simp)
  obtain ⟨m', e', h', hlt, hnormal, hmin, hround⟩ := exists_roundsTo_round negative hnum hden
  -- the ratio lies in the intervals of both numbers, so they are one
  have hle : e' ≤ e := not_lt.mp (h.not_lt h' hm hnormal)
  have hmax : e' ≤ maxExponent := hle.trans hm.le_maxExponent
  obtain ⟨rfl, rfl⟩ := eq_of_roundsTo h h' hm ⟨hlt, hnormal, hmin, hmax⟩
  rw [hround, if_neg (not_lt.mpr hmax)]

/-- The sign does not matter to rounding. -/
theorem neg_round (negative : Bool) (num den : Nat) (scale : Int) :
    (round negative num den scale).neg = round (!negative) num den scale := by
  unfold round
  dsimp only
  split
  · rfl
  · split
    · rfl
    · rw [apply_ite neg]
      rfl

/-! ## Decimals -/

/-- The number that is nearest to a decimal. -/
def nearestTo (negative : Bool) (d : Decimal) : Binary64 :=
  round negative (scaleTen d.digits 1 d.exponent).1 (scaleTen d.digits 1 d.exponent).2 0

/-- A decimal that lies in the interval of a number is rounded to this number. -/
theorem nearestTo_eq (negative : Bool) (hm : Representable m e) (hpos : 0 < m) {d : Decimal}
    (h : RoundsTo m e d.value) : nearestTo negative d = .finite negative m e := by
  obtain ⟨hden, hvalue⟩ := scaleTen_value d.digits Nat.one_pos d.exponent
  have hden' : ((scaleTen d.digits 1 d.exponent).2 : ℚ) ≠ 0 := by exact_mod_cast hden.ne'
  refine round_eq_of_roundsTo negative hm hpos hden ?_
  rwa [hvalue, mul_div_assoc, div_self hden', mul_one, Nat.cast_one, div_one]

end Promptwright.Binary64
