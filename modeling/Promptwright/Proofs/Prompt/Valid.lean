import Mathlib.Algebra.Order.Ring.Int
import Promptwright.Proofs.Prompt.Checks
import Promptwright.Proofs.Text.Lines

/-!
# Valid prompts

The rules that every prompt keeps which is read from a document: a name that shows something, a
version and a temperature in their ranges, schemas with a type, cases with messages, and custom
checks that are no built-in ones.

## Key results

- `Prompt.Valid`: the rules
- `checkValues_eq_ok_iff`: the values that are accepted
- `typed_of_resolveSchema`: schemas have a type, wherever they are read from
-/

namespace Promptwright

open Json (Members)

/-! ## The rules -/

/-- A number from zero to two.  It is compared in units of the least positive number, of which there
are `2 ^ 1074` in one. -/
def IsTemperature (t : Binary64) : Prop :=
  ∃ negative m e, t = .finite negative m e ∧ 0 ≤ Binary64.units negative m e ∧
    Binary64.units negative m e ≤ 2 * 2 ^ 1074

/-- A schema that is an object with a type. -/
def Schema.Typed (s : Schema) : Prop :=
  ∃ ms j, s.value = .object ms ∧ Members.lookup ms "type" = some j

/-- An evaluation that has cases, all of them with messages, and only proper checks. -/
structure EvaluationSuite.Valid (s : EvaluationSuite) : Prop where
  cases : s.cases ≠ []
  messages : ∀ c ∈ s.cases, c.messages ≠ []
  checks : ∀ k ∈ s.checks, k.kind.Proper
  caseChecks : ∀ c ∈ s.cases, ∀ k ∈ c.checks, k.kind.Proper

/-- A prompt that keeps the rules of documents. -/
structure Prompt.Valid (p : Prompt) : Prop where
  name : ∃ c ∈ p.name.toList, Text.isBlank c = false
  version : 1 ≤ p.version ∧ p.version < 2 ^ 32
  temperature : IsTemperature p.temperature
  model : ∀ model, p.model = some model → '@' ∈ model.toList
  schema : ∀ s, p.schema = some s → s.Typed
  tools : ∀ t ∈ p.tools, t.parameters.Typed
  evaluation : ∀ suite, p.evaluation = some suite → suite.Valid

/-! ## Single values -/

/-- Two, in units of the least positive number. -/
theorem units_two : Binary64.units false 4503599627370496 (-51) = 2 * 2 ^ 1074 := by
  have hmantissa : (4503599627370496 : Nat) = 2 ^ 52 := by decide
  simp only [Binary64.units, hmantissa, Bool.false_eq_true, if_false, Nat.pow_eq]
  -- the powers are too great to be computed, so the exponents are added
  generalize hk : (-51 - Binary64.minExponent).toNat = k
  have hexponent : 1074 = k + 51 := by rw [← hk]; decide
  rw [hexponent, Nat.cast_pow, Nat.cast_pow, Nat.cast_ofNat, ← pow_add, ← pow_succ', Nat.add_comm]

/-- What is compared with zero and two is a temperature. -/
theorem isTemperature_iff {t : Binary64} :
    (Binary64.zero.le t && t.le (.ofNat 2)) = true ↔ IsTemperature t := by
  have htwo : Binary64.ofNat 2 = .finite false 4503599627370496 (-51) := by decide
  have hzero : Binary64.units false 0 Binary64.minExponent = 0 := by decide
  rw [htwo, Bool.and_eq_true]
  cases t with
  | finite negative m e =>
    rw [Binary64.zero, Binary64.le, Binary64.le, decide_eq_true_eq, decide_eq_true_eq, hzero,
      units_two]
    constructor
    · exact fun h => ⟨negative, m, e, rfl, h⟩
    · rintro ⟨_, _, _, heq, h⟩
      cases heq
      exact h
  | infinite negative =>
    refine ⟨fun h => ?_, fun ⟨_, _, _, heq, _⟩ => by cases heq⟩
    -- one of the infinite numbers is too great, and the other one too small
    cases negative with
    | false => cases h.2
    | true => cases h.1
  | nan =>
    refine ⟨fun h => ?_, fun ⟨_, _, _, heq, _⟩ => by cases heq⟩
    cases h.2

/-- The drafts whose single values are accepted. -/
theorem Origin.checkValues_eq_ok_iff {o : Origin} {d : PromptDraft} :
    o.checkValues d = .ok () ↔
      (∃ c ∈ d.name.toList, Text.isBlank c = false) ∧ (1 ≤ d.version ∧ d.version < 2 ^ 32) ∧
        IsTemperature d.temperature ∧ ∀ model, d.model = some model → '@' ∈ model.toList := by
  have hname : (Text.trim d.name.toList).isEmpty = true ↔
      ¬ ∃ c ∈ d.name.toList, Text.isBlank c = false := by
    rw [List.isEmpty_iff, Text.trim_eq_nil_iff]
    simp
  have hversion : (d.version < 1 ∨ maxVersion < d.version) ↔
      ¬ (1 ≤ d.version ∧ d.version < 2 ^ 32) := by
    rw [maxVersion]
    omega
  have htemperature : (!(Binary64.zero.le d.temperature && d.temperature.le (.ofNat 2))) = true ↔
      ¬ IsTemperature d.temperature := by
    rw [Bool.not_eq_true', ← Bool.not_eq_true, isTemperature_iff]
  have hflawed : ∀ {flaw}, o.flawed flaw ≠ (.ok () : Except LoadError Unit) := nofun
  -- each test that fails contradicts its rule, and after the last one all rules hold
  rw [checkValues]
  split
  · next h => exact ⟨fun h' => (hflawed h').elim, fun h' => (hname.mp h h'.1).elim⟩
  split
  · next h => exact ⟨fun h' => (hflawed h').elim, fun h' => (hversion.mp h h'.2.1).elim⟩
  split
  · next h => exact ⟨fun h' => (hflawed h').elim, fun h' => (htemperature.mp h h'.2.2.1).elim⟩
  next h₁ h₂ h₃ =>
    rw [hname, not_not] at h₁
    rw [hversion, not_not] at h₂
    rw [htemperature, not_not] at h₃
    rw [and_iff_right h₁, and_iff_right h₂, and_iff_right h₃]
    split
    · next model hmodel =>
      simp only [hmodel, Option.some.injEq, forall_eq', List.contains_iff_mem]
      split
      · next hmem => exact ⟨fun _ => hmem, fun _ => rfl⟩
      · next hmem => exact ⟨fun h => (hflawed h).elim, fun h => (hmem h).elim⟩
    · next hmodel => simp [hmodel]

/-! ## Schemas -/

/-- A value with a member of a name is an object. -/
theorem Schema.typed_of_isTyped {s : Schema} (h : s.isTyped = true) : s.Typed := by
  obtain ⟨j, hj⟩ := Option.isSome_iff_exists.mp h
  obtain ⟨value⟩ := s
  cases value with
  | object ms => exact ⟨ms, j, rfl, hj⟩
  | null | bool _ | number _ | string _ | array _ => cases hj

/-- A schema has a type, whether it is given, or is in a text, or in a file. -/
theorem Origin.typed_of_resolveSchema {o : Origin} {place : SchemaPlace} {j : Json} {s : Schema}
    (h : o.resolveSchema place j = .ok s) : s.Typed := by
  obtain ⟨value, -, h⟩ := bind_eq_ok h
  dsimp only at h
  split at h
  · next htyped =>
    cases h
    exact Schema.typed_of_isTyped htyped
  · cases h

end Promptwright
