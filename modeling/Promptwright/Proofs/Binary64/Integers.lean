import Mathlib.Algebra.Order.Ring.Int
import Mathlib.Tactic.Ring
import Promptwright.Binary64

/-!
# Whole numbers as floating ones

A whole number is rounded to a multiple of a power of two, the spacing that floating numbers of its
size have.  Up to `2 ^ 53` the spacing is one and nothing is lost; from there on it doubles with every
further bit.  Two whole numbers are the same as floating ones just if they are rounded to the same
multiple.

## Key results

- `nearest`: the whole number that is left after rounding
- `exists_round_eq`: rounding gives this number
- `same_ofInt_iff`: equality of whole numbers as floating ones
- `same_ofInt_of_le_iff`: equality where one of them does not fit into 64 bits with a sign
-/

namespace Promptwright.Binary64

/-! ## Rounding quotients -/

/-- A quotient is rounded down or up, and in the middle between two numbers to the even one. -/
theorem roundDiv_cases (num den : Nat) :
    roundDiv num den = num / den ∧ 2 * (num % den) ≤ den ∧
        (2 * (num % den) = den → num / den % 2 = 0) ∨
      roundDiv num den = num / den + 1 ∧ den ≤ 2 * (num % den) := by
  unfold roundDiv
  dsimp only
  split
  · exact .inl ⟨rfl, by omega, by omega⟩
  · split
    · exact .inr ⟨rfl, by omega⟩
    · split
      · exact .inl ⟨rfl, by omega, by omega⟩
      · exact .inr ⟨rfl, by omega⟩

/-- Nothing is lost in a division by one. -/
theorem roundDiv_one (n : Nat) : roundDiv n 1 = n := by
  simp [roundDiv, Nat.mod_one]

/-- A quotient is rounded up by at most a half. -/
theorem two_mul_roundDiv_le (num den : Nat) : 2 * (roundDiv num den * den) ≤ 2 * num + den := by
  have hdiv := Nat.div_add_mod' num den
  obtain ⟨h, hrest, -⟩ | ⟨h, hrest⟩ := roundDiv_cases num den
  · rw [h]
    omega
  · have hmul : (num / den + 1) * den = num / den * den + den := Nat.succ_mul _ _
    rw [h, hmul]
    omega

/-! ## Spacing -/

/-- The distance of neighbouring floating numbers that have the size of a whole number. -/
def spacing (n : Nat) : Nat := 2 ^ (n.log2 - 52)

/-- The whole number that a whole number is rounded to. -/
def nearest (n : Nat) : Nat := roundDiv n (spacing n) * spacing n

/-- One, in units of the least positive number. -/
def unitsOfOne : Nat := 2 ^ (-minExponent).toNat

/-- One is positive. -/
theorem unitsOfOne_pos : 0 < unitsOfOne := Nat.two_pow_pos _

/-- The leading bit of a whole number. -/
theorem leadingBit_one {n : Nat} (hn : n ≠ 0) : leadingBit n 1 = n.log2 := by
  have hself : 2 ^ n.log2 ≤ n := Nat.log2_self_le hn
  have hone : Nat.log2 1 = 0 := by decide
  simp only [leadingBit, hone, scaleRatio]
  by_cases hzero : n.log2 = 0
  · have hpos : 1 ≤ n := Nat.pos_of_ne_zero hn
    simp [hzero, hpos]
  · have hneg : ¬ (0 : Int) ≤ -((n.log2 : Int) - (0 : Nat)) := by omega
    have hexp : (-(-((n.log2 : Int) - (0 : Nat)))).toNat = n.log2 := by omega
    rw [if_neg hneg]
    dsimp only
    rw [hexp, Nat.one_mul, Nat.pow_eq, if_pos hself]
    omega

/-- A mantissa that is too great for one exponent belongs to the next one. -/
theorem units_carry (negative : Bool) {e : Int} (he : minExponent ≤ e) :
    units negative (2 * hiddenBit) e = units negative hiddenBit (e + 1) := by
  have hexp : (e + 1 - minExponent).toNat = (e - minExponent).toNat + 1 := by omega
  have hmul : ((2 * hiddenBit : Nat) : Int) * Nat.pow 2 (e - minExponent).toNat =
      (hiddenBit : Nat) * Nat.pow 2 (e + 1 - minExponent).toNat := by
    rw [hexp, Nat.pow_eq, Nat.pow_eq, pow_succ]
    push_cast
    ring
  rw [units, units, hmul]

/-- The scaled ratio that gives the mantissa of a whole number. -/
theorem roundDiv_scaleRatio (n : Nat) :
    (roundDiv (scaleRatio n 1 (0 - ((n.log2 : Int) - 52))).1
        (scaleRatio n 1 (0 - ((n.log2 : Int) - 52))).2 : Int) *
      Nat.pow 2 ((n.log2 : Int) - 52 - minExponent).toNat = nearest n * unitsOfOne := by
  unfold scaleRatio nearest spacing
  by_cases hsmall : n.log2 ≤ 52
  · -- a small number is exact, and its mantissa is filled up with zeros
    have hnonneg : (0 : Int) ≤ 0 - ((n.log2 : Int) - 52) := by omega
    have hexp : (0 - ((n.log2 : Int) - 52)).toNat = 52 - n.log2 := by omega
    have hsum : 52 - n.log2 + ((n.log2 : Int) - 52 - minExponent).toNat =
        (-minExponent).toNat := by
      rw [minExponent]
      omega
    have hpow : unitsOfOne =
        2 ^ (52 - n.log2) * 2 ^ ((n.log2 : Int) - 52 - minExponent).toNat := by
      rw [← pow_add, hsum, unitsOfOne]
    rw [if_pos hnonneg, hexp, Nat.sub_eq_zero_of_le hsmall]
    dsimp only
    rw [roundDiv_one, pow_zero, roundDiv_one, Nat.mul_one, hpow, Nat.pow_eq, Nat.pow_eq]
    push_cast
    ring
  · -- a great number is divided by the spacing, which is then in the exponent
    have hneg : ¬ (0 : Int) ≤ 0 - ((n.log2 : Int) - 52) := by omega
    have hexp : (-(0 - ((n.log2 : Int) - 52))).toNat = n.log2 - 52 := by omega
    have hsum : ((n.log2 : Int) - 52 - minExponent).toNat =
        n.log2 - 52 + (-minExponent).toNat := by
      rw [minExponent]
      omega
    have hpow : 2 ^ ((n.log2 : Int) - 52 - minExponent).toNat =
        2 ^ (n.log2 - 52) * unitsOfOne := by
      rw [hsum, pow_add, unitsOfOne]
    rw [if_neg hneg, hexp]
    dsimp only
    rw [Nat.one_mul, Nat.pow_eq, Nat.pow_eq, hpow]
    push_cast
    ring

/-- A whole number of at most 64 bits is rounded to a finite number, whose value is the nearest
multiple of the spacing. -/
theorem exists_round_eq (negative : Bool) {n : Nat} (hn : n < 2 ^ 64) :
    ∃ m e, round negative n 1 0 = .finite negative m e ∧
      units negative m e = (if negative then -(nearest n : Int) else nearest n) * unitsOfOne := by
  by_cases hzero : n = 0
  · subst hzero
    refine ⟨0, minExponent, rfl, ?_⟩
    have hnearest : nearest 0 = 0 := by decide
    simp only [units, hnearest, Nat.cast_zero, zero_mul, neg_zero, ite_self]
  have hlog : n.log2 < 64 := (Nat.log2_lt hzero).mpr hn
  have hmax : max ((n.log2 : Int) + 0 - 52) minExponent = (n.log2 : Int) - 52 := by
    rw [minExponent]
    omega
  have hvalue := roundDiv_scaleRatio n
  simp only [round, leadingBit_one hzero, hmax, one_ne_zero, hzero, if_false]
  generalize roundDiv (scaleRatio n 1 (0 - ((n.log2 : Int) - 52))).1
    (scaleRatio n 1 (0 - ((n.log2 : Int) - 52))).2 = m at hvalue ⊢
  have hunits : units negative m ((n.log2 : Int) - 52) =
      (if negative then -(nearest n : Int) else nearest n) * unitsOfOne := by
    rw [units, hvalue, ite_mul, neg_mul]
  -- the exponent stays far below the greatest one, also after a carry
  by_cases hcarry : m = 2 * hiddenBit
  · have hle : ¬ maxExponent < (n.log2 : Int) - 52 + 1 := by
      rw [maxExponent]
      omega
    have hmin : minExponent ≤ (n.log2 : Int) - 52 := by
      rw [minExponent]
      omega
    refine ⟨hiddenBit, (n.log2 : Int) - 52 + 1, ?_, ?_⟩
    · simp only [if_pos hcarry, if_neg hle]
    · rw [← units_carry negative hmin, ← hcarry]
      exact hunits
  · have hle : ¬ maxExponent < (n.log2 : Int) - 52 := by
      rw [maxExponent]
      omega
    refine ⟨m, (n.log2 : Int) - 52, ?_, hunits⟩
    simp only [if_neg hcarry, if_neg hle]

/-! ## Equality -/

/-- The whole number with a sign that is left after rounding. -/
def nearestInt (n : Int) : Int := if n < 0 then -(nearest n.natAbs : Int) else nearest n.natAbs

/-- Whole numbers are the same as floating ones just if they are rounded to the same number. -/
theorem same_ofInt_iff {m n : Int} (hm : m.natAbs < 2 ^ 64) (hn : n.natAbs < 2 ^ 64) :
    (ofInt m).same (ofInt n) = true ↔ nearestInt m = nearestInt n := by
  obtain ⟨mm, em, hmround, hmunits⟩ := exists_round_eq (decide (m < 0)) hm
  obtain ⟨mn, en, hnround, hnunits⟩ := exists_round_eq (decide (n < 0)) hn
  simp only [decide_eq_true_eq] at hmunits hnunits
  have hpos : (0 : Int) < unitsOfOne := Int.natCast_pos.mpr unitsOfOne_pos
  rw [same, ofInt, ofInt, hmround, hnround, le, le, hmunits, hnunits, Bool.and_eq_true,
    decide_eq_true_eq, decide_eq_true_eq]
  show nearestInt m * unitsOfOne ≤ nearestInt n * unitsOfOne ∧
    nearestInt n * unitsOfOne ≤ nearestInt m * unitsOfOne ↔ _
  rw [mul_le_mul_iff_left₀ hpos, mul_le_mul_iff_left₀ hpos]
  exact le_antisymm_iff.symm

/-! ## Numbers of 64 bits -/

/-- Close to `2 ^ 63` and above it, whole numbers are rounded to multiples of `2048`. -/
theorem nearest_of_le {n : Nat} (hlow : 2 ^ 63 - 512 ≤ n) (hhigh : n < 2 ^ 64) :
    nearest n = roundDiv n 2048 * 2048 := by
  have hzero : n ≠ 0 := by omega
  by_cases hbit : 2 ^ 63 ≤ n
  · have hlog : n.log2 = 63 := (Nat.log2_eq_iff hzero).mpr ⟨hbit, hhigh⟩
    have hspacing : (2 : Nat) ^ (63 - 52) = 2048 := by decide
    rw [nearest, spacing, hlog, hspacing]
  · -- below `2 ^ 63` the spacing is half as wide, but these numbers are rounded to `2 ^ 63`
    have hlog : n.log2 = 62 := (Nat.log2_eq_iff hzero).mpr ⟨by omega, by omega⟩
    have hspacing : (2 : Nat) ^ (62 - 52) = 1024 := by decide
    rw [nearest, spacing, hlog, hspacing]
    obtain ⟨h, hrest, heven⟩ | ⟨h, hrest⟩ := roundDiv_cases n 1024 <;>
      obtain ⟨h', hrest', -⟩ | ⟨h', hrest'⟩ := roundDiv_cases n 2048 <;> omega

/-- Smaller whole numbers are rounded to less than `2 ^ 63`. -/
theorem nearest_lt {n : Nat} (hn : n < 2 ^ 63 - 512) : nearest n < 2 ^ 63 := by
  unfold nearest spacing
  by_cases hbit : 2 ^ 62 ≤ n
  · have hlog : n.log2 = 62 := (Nat.log2_eq_iff (by omega)).mpr ⟨hbit, by omega⟩
    have hspacing : (2 : Nat) ^ (62 - 52) = 1024 := by decide
    rw [hlog, hspacing]
    obtain ⟨h, hrest, -⟩ | ⟨h, hrest⟩ := roundDiv_cases n 1024 <;> omega
  · have hlog : n.log2 ≤ 61 := by
      by_cases hzero : n = 0
      · subst hzero
        decide
      · have hlt := (Nat.log2_lt hzero).mpr (Nat.lt_of_not_le hbit)
        omega
    have hspacing : 2 ^ (n.log2 - 52) ≤ 2 ^ 9 := Nat.pow_le_pow_right (by decide) (by omega)
    have hround := two_mul_roundDiv_le n (2 ^ (n.log2 - 52))
    omega

/-- A number that does not fit into 64 bits with a sign is the same as another one, as a floating
number, just if the other one is that great, or short of it by `512` at most, and both have the same
nearest multiple of `2048`. -/
theorem same_ofInt_of_le_iff {m n : Int} (hm : 2 ^ 63 ≤ m) (hm' : m < 2 ^ 64) (hn : -2 ^ 63 ≤ n)
    (hn' : n < 2 ^ 64) : (ofInt m).same (ofInt n) = true ↔
      2 ^ 63 - 512 ≤ n ∧ roundDiv m.toNat 2048 = roundDiv n.toNat 2048 := by
  have hnonneg : ¬ m < 0 := by omega
  have hmabs : m.natAbs = m.toNat := by omega
  have hmnearest : nearest m.toNat = roundDiv m.toNat 2048 * 2048 :=
    nearest_of_le (by omega) (by omega)
  rw [same_ofInt_iff (by omega) (by omega), nearestInt, nearestInt, if_neg hnonneg, hmabs,
    hmnearest]
  -- rounding does not lead below a multiple of the spacing
  have hgreat : 2 ^ 63 ≤ roundDiv m.toNat 2048 * 2048 := by
    obtain ⟨h, -⟩ | ⟨h, -⟩ := roundDiv_cases m.toNat 2048 <;> omega
  by_cases hnear : 2 ^ 63 - 512 ≤ n
  · have hnabs : n.natAbs = n.toNat := by omega
    have hnnearest : nearest n.toNat = roundDiv n.toNat 2048 * 2048 :=
      nearest_of_le (by omega) (by omega)
    rw [if_neg (by omega), hnabs, hnnearest]
    omega
  · -- what is smaller stays below `2 ^ 63`
    refine iff_of_false (fun heq => ?_) fun h => hnear h.1
    by_cases hneg : n < 0
    · rw [if_pos hneg] at heq
      omega
    · have hlt : nearest n.natAbs < 2 ^ 63 := nearest_lt (by omega)
      rw [if_neg hneg] at heq
      omega

end Promptwright.Binary64
