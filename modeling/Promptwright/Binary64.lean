/-! # Binary floating-point numbers of double width

A `Binary64` is one of the numbers of the IEEE 754 format with 53 significant bits, written
as a sign, a whole mantissa and a power of two, or an infinity, or "not a number".  Every
operation is exact whole-number arithmetic followed by one rounding, `Binary64.round`, so
nothing here rests on the machine's own floating point.

The mantissa of a finite number is kept in one form: below `2 ^ 53`, and at least `2 ^ 52`
unless the exponent is already the least one.  Two finite numbers that are written
differently therefore differ in value or in the sign of zero. -/

namespace Promptwright

/-- A number of the double-width binary format: `finite s m e` stands for `± m · 2 ^ e`. -/
inductive Binary64
  | finite (negative : Bool) (mantissa : Nat) (exponent : Int)
  | infinite (negative : Bool)
  | nan
deriving DecidableEq, Repr

namespace Binary64

/-- The least mantissa of a normal number, `2 ^ 52`: its mantissas have 53 bits. -/
def hiddenBit : Nat := 4503599627370496

/-- The exponent of the least positive number and of all numbers below the normal ones. -/
def minExponent : Int := -1074

/-- The exponent of the greatest finite number. -/
def maxExponent : Int := 971

/-! ## Rounding -/

/-- The whole number nearest to `num / den`; of two equally near ones, the even one. -/
def roundDiv (num den : Nat) : Nat :=
  let q := num / den
  let r := num % den
  if 2 * r < den then q
  else if den < 2 * r then q + 1
  else if q % 2 = 0 then q
  else q + 1

/-- `num · 2 ^ k` over `den`, as a pair of numerator and denominator, for a `k` of either sign. -/
def scaleRatio (num den : Nat) (k : Int) : Nat × Nat :=
  if 0 ≤ k then (num * Nat.pow 2 k.toNat, den) else (num, den * Nat.pow 2 (-k).toNat)

/-- The `k` with `2 ^ k ≤ num / den < 2 ^ (k + 1)`, for positive `num` and `den`. -/
def leadingBit (num den : Nat) : Int :=
  let k : Int := num.log2 - den.log2
  let (n, d) := scaleRatio num den (-k)
  if d ≤ n then k else k - 1

/-- The number nearest to `± num / den · 2 ^ scale`, ties going to the even mantissa.  What
lies beyond the greatest finite number by half a step or more becomes infinite. -/
def round (negative : Bool) (num den : Nat) (scale : Int) : Binary64 :=
  if den = 0 then .nan
  else if num = 0 then .finite negative 0 minExponent
  else
    let e := max (leadingBit num den + scale - 52) minExponent
    let (n, d) := scaleRatio num den (scale - e)
    let m := roundDiv n d
    let (m, e) := if m = 2 * hiddenBit then (hiddenBit, e + 1) else (m, e)
    if maxExponent < e then .infinite negative else .finite negative m e

/-- The number nearest to a whole number. -/
def ofNat (n : Nat) : Binary64 := round false n 1 0

/-- The number nearest to an integer. -/
def ofInt (n : Int) : Binary64 := round (decide (n < 0)) n.natAbs 1 0

/-- Positive zero. -/
def zero : Binary64 := .finite false 0 minExponent

/-! ## Arithmetic -/

/-- The same number with the other sign. -/
def neg : Binary64 → Binary64
  | .finite s m e => .finite (!s) m e
  | .infinite s => .infinite (!s)
  | .nan => .nan

/-- The nearest number to a product. -/
def mul : Binary64 → Binary64 → Binary64
  | .finite s m e, .finite t n f => round (s != t) (m * n) 1 (e + f)
  | .finite s m _, .infinite t => if m = 0 then .nan else .infinite (s != t)
  | .infinite s, .finite t n _ => if n = 0 then .nan else .infinite (s != t)
  | .infinite s, .infinite t => .infinite (s != t)
  | _, _ => .nan

/-- The nearest number to a quotient. -/
def div : Binary64 → Binary64 → Binary64
  | .finite s m e, .finite t n f =>
    if n = 0 then (if m = 0 then .nan else .infinite (s != t)) else round (s != t) m n (e - f)
  | .finite s _ _, .infinite t => .finite (s != t) 0 minExponent
  | .infinite s, .finite t _ _ => .infinite (s != t)
  | _, _ => .nan

/-! ## Tests and comparisons -/

/-- Neither infinite nor "not a number". -/
def isFinite : Binary64 → Bool
  | .finite .. => true
  | _ => false

/-- One of the two zeros. -/
def isZero : Binary64 → Bool
  | .finite _ m _ => m == 0
  | _ => false

/-- The value `± m · 2 ^ e` of a finite number in units of the least positive number. -/
def units (negative : Bool) (mantissa : Nat) (exponent : Int) : Int :=
  let n : Int := mantissa * Nat.pow 2 (exponent - minExponent).toNat
  if negative then -n else n

/-- `x ≤ y` as numbers; false as soon as one side is not a number. -/
def le : Binary64 → Binary64 → Bool
  | .nan, _ => false
  | _, .nan => false
  | .infinite true, _ => true
  | _, .infinite false => true
  | .infinite false, _ => false
  | _, .infinite true => false
  | .finite s m e, .finite t n f => decide (units s m e ≤ units t n f)

/-- `x` and `y` are the same number: the two zeros are, and "not a number" is not even itself. -/
def same (x y : Binary64) : Bool := x.le y && y.le x

end Binary64

end Promptwright
