import Promptwright.Binary64.Decimal

/-! # Numbers of JSON texts

A number is a whole number or a binary floating-point one.  Which it is shows in its text:
whole numbers between `-2 ^ 63` and `2 ^ 64 - 1` that are written without a point and without
an exponent stay whole, and everything else is floating.  Negative zero is floating. -/

namespace Promptwright.Json

/-- A number: `1` is whole, `1.0` is floating, and the two are told apart. -/
inductive Number
  | integer (n : Int)
  | float (x : Binary64)
deriving DecidableEq, Repr

namespace Number

/-! ## Ranges -/

/-- The greatest whole number. -/
def maxInteger : Nat := 18446744073709551615

/-- The bound `2 ^ 63` of whole numbers of 64 bits with a sign. -/
def signedBound : Nat := 9223372036854775808

/-- The whole number as a signed one of 64 bits, if it is one. -/
def toSigned? : Number → Option Int
  | .integer n => if -signedBound ≤ n ∧ n < signedBound then some n else none
  | .float _ => none

/-- The whole number as an unsigned one of 64 bits, if it is one. -/
def toUnsigned? : Number → Option Nat
  | .integer n => if 0 ≤ n ∧ n ≤ maxInteger then some n.toNat else none
  | .float _ => none

/-- The number as a floating one, rounded if need be. -/
def toBinary64 : Number → Binary64
  | .integer n => Binary64.ofInt n
  | .float x => x

/-! ## Writing -/

/-- The shortest decimal of a floating number, laid out: without an exponent when the first
digit stands for `10 ^ -5` up to `10 ^ 15`, and then always with a point; otherwise with an
exponent that shows its sign. -/
def layout (d : Decimal) : List Char :=
  let k := d.pointPosition - 1
  if -5 ≤ k ∧ k ≤ 15 then d.positional ['.', '0']
  else
    let mantissa := match d.numerals with
      | [] => []
      | [c] => [c]
      | c :: cs => c :: '.' :: cs
    let sign := if k < 0 then '-' else '+'
    mantissa ++ 'e' :: sign :: Nat.toDigits 10 k.natAbs

/-- The text of a floating number, with ties to an even digit.  Infinities and "not a number" have none in JSON. -/
def floatText : Binary64 → String
  | .finite s m e =>
    let text := if m = 0 then "0.0" else String.ofList (layout (Binary64.shortest .even m e))
    if s then "-" ++ text else text
  | _ => "null"

/-- The text of a number. -/
def text : Number → String
  | .integer n => toString n
  | .float x => floatText x

/-! ## Reading -/

/-- The parts of a numeral: its sign, the digits before and after the point, and the exponent.
`fraction` is `none` when there is no point. -/
structure Numeral where
  negative : Bool
  whole : List Char
  fraction : Option (List Char)
  exponent : Option (Bool × List Char)
deriving DecidableEq, Repr

/-- Appends digits to a number as long as it stays at most `maxInteger`; the digits that are
left over follow. -/
def absorb (n : Nat) : List Char → Nat × List Char
  | [] => (n, [])
  | c :: cs =>
    let n' := n * 10 + (c.toNat - '0'.toNat)
    if maxInteger < n' then (n, c :: cs) else absorb n' cs

/-- The exponents for which `scaleByTen` needs no more than one step. -/
def scaleStep : Nat := 308

/-- The power of ten as a floating number. -/
def powerOfTen (k : Nat) : Binary64 := Binary64.ofDecimal false 1 k

/-- Multiplies by `10 ^ k`, or divides when `k` is negative, rounding after each step; `none`
when the result is too large.  A division takes `scaleStep` places at a time, so a number that
has become zero stays zero, and `fuel` need only cover the steps until then. -/
def scaleByTen (x : Binary64) (k : Int) : Nat → Option Binary64
  | 0 => some x
  | fuel + 1 =>
    if k.natAbs ≤ scaleStep then
      if 0 ≤ k then
        let y := x.mul (powerOfTen k.natAbs)
        if y.isFinite then some y else none
      else some (x.div (powerOfTen k.natAbs))
    else if x.isZero then some x
    else if 0 ≤ k then none
    else scaleByTen (x.div (powerOfTen scaleStep)) (k + scaleStep) fuel

/-- The greatest exponent that is read as such. -/
def maxExponentDigits : Nat := 2147483647

/-- The number a numeral stands for; `none` when it is too large.  A floating number is the
leading digits as far as they fit into 64 bits, rounded, and then scaled by a power of ten,
rounded again: its last bit may differ from that of the nearest number. -/
def ofNumeral? (t : Numeral) : Option Number :=
  let (lead, wholeRest) := absorb 0 t.whole
  let sign (x : Binary64) : Binary64 := if t.negative then x.neg else x
  if t.fraction.isNone && t.exponent.isNone && wholeRest.isEmpty then
    if !t.negative then some (.integer lead)
    else if lead = 0 ∨ signedBound < lead then some (.float (Binary64.ofNat lead).neg)
    else some (.integer (-lead))
  else
    let fraction := t.fraction.getD []
    let (lead, fractionRest) := absorb lead fraction
    let shift : Int := wholeRest.length - (fraction.length - fractionRest.length : Nat)
    match t.exponent with
    | none => (scaleByTen (Binary64.ofNat lead) shift 4).map fun x => .float (sign x)
    | some (negative, digits) =>
      let e := Binary64.digitsValue 0 digits
      if maxExponentDigits < e then
        if lead ≠ 0 ∧ !negative then none else some (.float (sign Binary64.zero))
      else
        let k := if negative then shift - e else shift + e
        (scaleByTen (Binary64.ofNat lead) k 4).map fun x => .float (sign x)

end Number

end Promptwright.Json
