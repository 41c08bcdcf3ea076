import Promptwright.Binary64

/-! # Decimal text of binary numbers

`Binary64.shortest` finds the decimal with the fewest digits that lies closer to a number
than to any other, and of those the one nearest to it.  Of two equally near ones a `Tie` picks
one.  How such a decimal is laid out is the business of the text that holds it:
`Decimal.positional` never uses an exponent.

`Binary64.ofDecimal` goes the other way, with one correct rounding, and
`Binary64.parse?` reads a whole numeral. -/

namespace Promptwright

/-- The decimal number `digits · 10 ^ exponent`. -/
structure Decimal where
  digits : Nat
  exponent : Int
deriving DecidableEq, Repr

namespace Decimal

/-- Moves factors of ten from the digits to the exponent, at most `fuel` of them. -/
def trim : Nat → Decimal → Decimal
  | 0, d => d
  | fuel + 1, ⟨n, k⟩ => if n ≠ 0 ∧ n % 10 = 0 then trim fuel ⟨n / 10, k + 1⟩ else ⟨n, k⟩

/-- The digits in order. -/
def numerals (d : Decimal) : List Char := Nat.toDigits 10 d.digits

/-- The number of places before the decimal point; negative when zeros follow the point. -/
def pointPosition (d : Decimal) : Int := d.numerals.length + d.exponent

/-- The decimal written out in full without an exponent; `fraction` is appended to a whole
number in place of a fractional part. -/
def positional (d : Decimal) (fraction : List Char) : List Char :=
  let ds := d.numerals
  let p := d.pointPosition
  if 0 ≤ d.exponent then ds ++ List.replicate d.exponent.toNat '0' ++ fraction
  else if 0 < p then ds.take p.toNat ++ '.' :: ds.drop p.toNat
  else '0' :: '.' :: List.replicate (-p).toNat '0' ++ ds

end Decimal

namespace Binary64

/-! ## From numbers to decimals -/

/-- `num / den · 10 ^ k` as a pair of numerator and denominator. -/
def scaleTen (num den : Nat) (k : Int) : Nat × Nat :=
  if 0 ≤ k then (num * Nat.pow 10 k.toNat, den) else (num, den * Nat.pow 10 (-k).toNat)

/-- The `p` with `10 ^ p ≤ num / den < 10 ^ (p + 1)`, for positive `num` and `den`: an estimate
from the leading bit, mended by at most one step. -/
def leadingDigit (num den : Nat) : Int :=
  let p : Int := (leadingBit num den * 30103).fdiv 100000
  let (n, d) := scaleTen num den (-(p + 1))
  if d ≤ n then p + 1
  else
    let (n, d) := scaleTen num den (-p)
    if d ≤ n then p else p - 1

/-- The interval of values that round to `m · 2 ^ e`, in quarters of `2 ^ e`: its two ends lie
half a step away, or a quarter step below a power of two, where the steps get shorter. -/
def roundingInterval (m : Nat) (e : Int) : Nat × Nat :=
  let low := if m = hiddenBit ∧ minExponent < e then 4 * m - 1 else 4 * m - 2
  (low, 4 * m + 2)

/-- Which of two equally near decimals is taken: the greater one, or the one with an even last
digit. -/
inductive Tie
  | up
  | even
deriving DecidableEq, Repr

/-- A decimal with `count` digits that reads back as `m · 2 ^ e`, if there is one: of the two
neighbours on that decimal grid those inside the rounding interval count, and the nearer wins.
The ends of the interval belong to it when `m` is even. -/
def withDigits? (tie : Tie) (m : Nat) (e : Int) (count : Nat) : Option Decimal :=
  let (lowM, highM) := roundingInterval m e
  let (num, den) := scaleRatio (4 * m) 1 (e - 2)
  let k : Int := leadingDigit num den - count + 1
  -- from here on everything is a multiple of `10 ^ k / step`
  let (value, step) := scaleTen num den (-k)
  let low := (scaleTen (scaleRatio lowM 1 (e - 2)).1 den (-k)).1
  let high := (scaleTen (scaleRatio highM 1 (e - 2)).1 den (-k)).1
  let c := value / step
  let inside (x : Nat) : Bool :=
    if m % 2 = 0 then decide (low ≤ x * step) && decide (x * step ≤ high)
    else decide (low < x * step) && decide (x * step < high)
  let below := inside c && decide (0 < c)
  let above := inside (c + 1)
  if below && above then
    let rest := 2 * (value % step)
    let down := rest < step || (rest == step && tie == .even && c % 2 == 0)
    some (if down then ⟨c, k⟩ else ⟨c + 1, k⟩)
  else if below then some ⟨c, k⟩
  else if above then some ⟨c + 1, k⟩
  else none

/-- The first of the digit counts from `count` on that gives a decimal, at most `fuel` of them. -/
def shortestFrom (tie : Tie) (m : Nat) (e : Int) (count : Nat) : Nat → Decimal
  | 0 => ⟨m, e⟩
  | fuel + 1 => (withDigits? tie m e count).getD (shortestFrom tie m e (count + 1) fuel)

/-- The shortest decimal that reads back as `m · 2 ^ e`.  Seventeen digits always do. -/
def shortest (tie : Tie) (m : Nat) (e : Int) : Decimal :=
  if m = 0 then ⟨0, 0⟩ else Decimal.trim 17 (shortestFrom tie m e 1 17)

/-- The number written with the fewest digits that read back, never with an exponent: `0.7`,
`0.0000001`, `-0`, `inf`, `NaN`.  Ties go up, and `fraction` follows a whole number. -/
def positional (x : Binary64) (fraction : String) : String :=
  match x with
  | .nan => "NaN"
  | .infinite s => if s then "-inf" else "inf"
  | .finite s m e =>
    let text := String.ofList ((shortest .up m e).positional fraction.toList)
    if s then "-" ++ text else text

/-! ## From decimals to numbers -/

/-- The number nearest to `± digits · 10 ^ exponent`.  Exponents so large or small that the
digits cannot matter are settled first. -/
def ofDecimal (negative : Bool) (digits : Nat) (exponent : Int) : Binary64 :=
  if digits = 0 then .finite negative 0 minExponent
  else
    let position := (Nat.toDigits 10 digits).length + exponent
    if 400 < position then .infinite negative
    else if position < -400 then .finite negative 0 minExponent
    else
      let (n, d) := scaleTen digits 1 exponent
      round negative n d 0

/-- The value of a run of decimal digits, read on from `start`. -/
def digitsValue (start : Nat) (ds : List Char) : Nat :=
  ds.foldl (fun n c => n * 10 + (c.toNat - '0'.toNat)) start

/-- Splits a sign off the front of a text. -/
def takeSign : List Char → Bool × List Char
  | '-' :: cs => (true, cs)
  | '+' :: cs => (false, cs)
  | cs => (false, cs)

/-- The exponent part of a numeral: nothing, or `e`, an optional sign and digits. -/
def parseExponent? : List Char → Option Int
  | [] => some 0
  | c :: cs =>
    if c = 'e' ∨ c = 'E' then
      let (s, ds) := takeSign cs
      if ds.isEmpty || !ds.all Char.isDigit then none
      else
        let n : Int := digitsValue 0 ds
        some (if s then -n else n)
    else none

/-- Reads a whole text as a number: a sign, then `inf`, `infinity` or `nan` in any case, or
digits with an optional point and an optional exponent. -/
def parse? (text : List Char) : Option Binary64 :=
  let (s, cs) := takeSign text
  let word := String.ofList (cs.map Char.toLower)
  if word = "inf" ∨ word = "infinity" then some (.infinite s)
  else if word = "nan" then some .nan
  else
    let whole := cs.takeWhile Char.isDigit
    let rest := cs.dropWhile Char.isDigit
    let (fraction, rest) := match rest with
      | '.' :: r => (r.takeWhile Char.isDigit, r.dropWhile Char.isDigit)
      | r => ([], r)
    if whole.isEmpty && fraction.isEmpty then none
    else (parseExponent? rest).map fun k =>
      ofDecimal s (digitsValue 0 (whole ++ fraction)) (k - fraction.length)

end Binary64

end Promptwright
