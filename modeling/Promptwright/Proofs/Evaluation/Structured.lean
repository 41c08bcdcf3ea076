import Promptwright.Evaluation.Run
import Promptwright.Proofs.Json.Equality

/-!
# Checks for values

A check for a value compares the answer with the value it expects.  Whole numbers are compared
exactly as long as both fit into 64 bits with a sign.  If one of them does not, both are compared as
floating numbers, and great numbers that differ a little are taken for the same one.

## Key results

- `same_iff_eq`: small enough numbers are compared exactly
- `structuredOutput_succeeds_iff`: when a check for a value succeeds
- `structuredOutput_succeeds_on_next`: it may succeed on a value that is not the expected one
-/

namespace Promptwright

variable {Code : Type} [CustomCode Code]

namespace Json.Number

/-- A whole number below all those that are rounded to `2 ^ 63`, and so apart from each number that
does not fit into 64 bits with a sign. -/
def IsSmall : Number → Prop
  | .integer n => -2 ^ 63 ≤ n ∧ n < 2 ^ 63 - 512
  | .float _ => False

/-- Small numbers are whole ones of 64 bits. -/
theorem IsSmall.isWhole {x : Number} (h : x.IsSmall) : x.IsWhole := by
  cases x with
  | float _ => exact h
  | integer n =>
    unfold IsSmall at h
    unfold IsWhole
    omega

/-- A small number is the same as itself only. -/
theorem same_iff_eq {x y : Number} (hx : x.IsWhole) (hy : y.IsWhole)
    (hsmall : x.IsSmall ∨ y.IsSmall) : x.same y = true ↔ x = y := by
  rw [same_integer_iff hx hy]
  cases x with
  | float _ => exact hx.elim
  | integer m =>
    cases y with
    | float _ => exact hy.elim
    | integer n =>
      unfold IsSmall at hsmall
      unfold Conflated
      rw [Number.integer.injEq]
      omega

end Json.Number

open Json.Number (IsWhole IsSmall Conflated)

/-- A check for a value always has a result.  Where all numbers are whole ones of 64 bits, it succeeds
just if the answer is the expected value, up to the order of members and up to great numbers that are
taken for the same one.  If the answer or the expected value has small numbers only, it succeeds just
if they are equal up to the order of members. -/
theorem structuredOutput_succeeds_iff {expected answer : Json} (name : Option String)
    (ctx : Context Code) (hexpected : expected.WellFormed) (hanswer : answer.WellFormed)
    (hexpectedWhole : expected.NumbersAre IsWhole) (hanswerWhole : answer.NumbersAre IsWhole) :
    ∃ r, Check.run ⟨name, .structuredOutput expected⟩ (.structured answer) ctx = .ok r ∧
      (r.success = true ↔ answer.EqualUpTo Conflated expected) ∧
      (expected.NumbersAre IsSmall ∨ answer.NumbersAre IsSmall →
        (r.success = true ↔ answer.EqualUpTo Eq expected)) := by
  refine ⟨_, rfl, ?_, ?_⟩
  · show answer.same expected = true ↔ _
    apply Json.same_iff _ answer expected hanswer hexpected hanswerWhole hexpectedWhole
    exact fun x y hx hy => Json.Number.same_integer_iff hx hy
  · -- a number is compared with one of the other side, so it is enough that one of them is small
    show _ → (answer.same expected = true ↔ _)
    rintro (hsmall | hsmall)
    · apply Json.same_iff _ answer expected hanswer hexpected hanswerWhole hsmall
      exact fun x y hx hy => Json.Number.same_iff_eq hx hy.isWhole (.inr hy)
    · apply Json.same_iff _ answer expected hanswer hexpected hsmall hexpectedWhole
      exact fun x y hx hy => Json.Number.same_iff_eq hx.isWhole hy (.inl hx)

/-- A badge with a great number and a negative one. -/
def badge : Json := .object [("id", .int 18446744073709551615), ("n", .int (-1))]

/-- The same badge, written the other way round. -/
def turnedBadge : Json := .object [("n", .int (-1)), ("id", .int 18446744073709551615)]

/-- A check for the badge succeeds on the turned one. -/
theorem structuredOutput_succeeds_iff_badge :
    ∃ r, Check.run ⟨none, .structuredOutput badge⟩ (.structured turnedBadge) .bare = .ok r ∧
      r.success = true := by
  have hbadge : badge.WellFormed := ⟨by decide, trivial, trivial, trivial⟩
  have hturned : turnedBadge.WellFormed := ⟨by decide, trivial, trivial, trivial⟩
  have hbadgeWhole : badge.NumbersAre IsWhole :=
    ⟨⟨by decide, by decide⟩, ⟨by decide, by decide⟩, trivial⟩
  have hturnedWhole : turnedBadge.NumbersAre IsWhole :=
    ⟨⟨by decide, by decide⟩, ⟨by decide, by decide⟩, trivial⟩
  obtain ⟨r, hrun, hsuccess, -⟩ :=
    structuredOutput_succeeds_iff none Context.bare hbadge hturned hbadgeWhole hturnedWhole
  refine ⟨r, hrun, hsuccess.mpr ⟨fun key => ?_, fun y hy => ?_, fun y hy => ?_, trivial⟩⟩
  · simp [Json.Members.keys, or_comm]
  · obtain rfl : y = .int (-1) := by simpa using hy
    exact .inl rfl
  · obtain rfl : y = .int 18446744073709551615 := by simpa using hy
    exact .inl rfl

/-- A check for the value `2 ^ 63` succeeds on the next whole number. -/
theorem structuredOutput_succeeds_on_next :
    (Json.int 9223372036854775808).NumbersAre IsWhole ∧
      (Json.int 9223372036854775809).NumbersAre IsWhole ∧
      ¬ (Json.int 9223372036854775809).EqualUpTo Eq (.int 9223372036854775808) ∧
      ∃ r, Check.run ⟨none, .structuredOutput (.int 9223372036854775808)⟩
          (.structured (.int 9223372036854775809)) .bare = .ok r ∧ r.success = true := by
  refine ⟨⟨by decide, by decide⟩, ⟨by decide, by decide⟩, ?_, _, rfl, by decide +kernel⟩
  simp [Json.int, Json.EqualUpTo]

end Promptwright
