import Mathlib.Algebra.Group.Int.Defs
import Promptwright.Validator.Basic

/-!
# What a validator accepts

`Validator.Accepts` reads a validator as a condition on a JSON value or on nothing at all, which is
what a property that is missing from an object counts as.  How texts, numbers and patterns are
measured is left open: a `Measures` value says so, and schemas are read with the same one.

## Key results

- `accepts_union_iff`, `acceptsProperties_iff`: the conditions in terms of membership
- `accepts_foldl_intersection_iff`: all of several validators
-/

namespace Promptwright

/-- How texts and numbers are measured and compared. -/
structure Measures where
  /-- The length of a text, in whatever units. -/
  length : String → Nat
  /-- Whether two numbers are the same one. -/
  same : Json.Number → Json.Number → Prop
  /-- Whether the first number is at most the second. -/
  le : Json.Number → Json.Number → Prop
  /-- Whether the first number is less than the second. -/
  lt : Json.Number → Json.Number → Prop
  /-- Whether the first number is a multiple of the second. -/
  multiple : Json.Number → Json.Number → Prop
  /-- Whether a number is whole. -/
  whole : Json.Number → Prop
  /-- Whether a text matches a pattern. -/
  matchesPattern : String → String → Prop
  /-- Whether a text has a format. -/
  hasFormat : Validator.TextFormat → String → Prop
  /-- What a keyword with an argument demands of a value, for keywords that validators know nothing
  of.  It may look at the other keywords of its node. -/
  demands : Json.Members → String → Json → Json → Prop

namespace Measures

/-- A count as a number. -/
def count (n : Nat) : Json.Number := .integer n

/-- A finite number in steps of the least positive floating one. -/
def steps : Json.Number → Int
  | .integer n => n * 2 ^ 1074
  | .float (.finite negative m e) =>
    (if negative then -(m : Int) else m) * 2 ^ (e - Binary64.minExponent).toNat
  | .float _ => 0

/-- Exact measures: a text is as long as it has characters, and numbers are compared by value.
Patterns, formats and further keywords demand nothing. -/
def exact : Measures where
  length := String.length
  same m n := steps m = steps n
  le m n := steps m ≤ steps n
  lt m n := steps m < steps n
  multiple m n := steps n ∣ steps m
  whole n := (2 ^ 1074 : Int) ∣ steps n
  matchesPattern _ _ := True
  hasFormat _ _ := True
  demands _ _ _ _ := True

mutual

/-- Whether two values are the same, whatever the order of the members of objects. -/
def Equal (M : Measures) : Json → Json → Prop
  | .null, .null => True
  | .bool a, .bool b => a = b
  | .number m, .number n => M.same m n
  | .string s, .string t => s = t
  | .array xs, .array ys => EqualItems M xs ys
  | .object ms, .object ns => ms.length = ns.length ∧ EqualMembers M ms ns
  | _, _ => False
  termination_by structural a => a

/-- Whether two lists have the same items in the same order. -/
def EqualItems (M : Measures) : List Json → List Json → Prop
  | [], [] => True
  | x :: xs, y :: ys => Equal M x y ∧ EqualItems M xs ys
  | _, _ => False
  termination_by structural xs => xs

/-- Whether every member of the first list has the same value in the second. -/
def EqualMembers (M : Measures) : List (String × Json) → Json.Members → Prop
  | [], _ => True
  | (k, x) :: ms, ns =>
    (match Json.Members.lookup ns k with
      | some y => Equal M x y
      | none => False) ∧ EqualMembers M ms ns
  termination_by structural ms => ms

end

end Measures

namespace Validator

/-- A condition on a text. -/
def TextCheck.Holds (M : Measures) (s : String) : TextCheck → Prop
  | .minLength n => M.le n (Measures.count (M.length s))
  | .maxLength n => M.le (Measures.count (M.length s)) n
  | .pattern regex => M.matchesPattern regex s
  | .format f => M.hasFormat f s

/-- How a number relates to a bound. -/
def Relation.Holds (M : Measures) (n bound : Json.Number) : Relation → Prop
  | .greater => M.lt bound n
  | .atLeast => M.le bound n
  | .less => M.lt n bound
  | .atMost => M.le n bound
  | .multipleOf => M.multiple n bound

/-- A condition on a number. -/
def NumberCheck.Holds (M : Measures) (n : Json.Number) (c : NumberCheck) : Prop :=
  c.relation.Holds M n c.bound

/-- A condition on the number of items. -/
def SizeCheck.Holds (M : Measures) (size : Nat) : SizeCheck → Prop
  | .min n => M.le n (Measures.count size)
  | .max n => M.le (Measures.count size) n

mutual

/-- What a validator accepts: a value, or the lack of one. -/
def Accepts (M : Measures) : Validator → Option Json → Prop
  | .any, _ => True
  | .never, _ => False
  | .unknown _, _ => True
  | .text checks, x => ∃ s, x = some (.string s) ∧ ∀ c ∈ checks, c.Holds M s
  | .number whole checks, x =>
    ∃ n, x = some (.number n) ∧ (whole = true → M.whole n) ∧ ∀ c ∈ checks, c.Holds M n
  | .boolean, x => ∃ b, x = some (.bool b)
  | .null, x => x = some .null
  -- a list or an object is a value of its own, equal to no other one
  | .literal j, x => j.isComposite = false ∧ ∃ y, x = some y ∧ M.Equal j y
  | .choice values, x => ∃ s ∈ values, x = some (.string s)
  | .union members, x => AcceptsAny M members x
  | .intersection left right, x => Accepts M left x ∧ Accepts M right x
  | .array item checks, x =>
    ∃ ys, x = some (.array ys) ∧ (∀ y ∈ ys, Accepts M item (some y)) ∧
      ∀ c ∈ checks, c.Holds M ys.length
  | .tuple items checks, x =>
    ∃ ys, x = some (.array ys) ∧ AcceptsInOrder M items ys ∧ ∀ c ∈ checks, c.Holds M ys.length
  | .object properties rest, x =>
    ∃ ms, x = some (.object ms) ∧ AcceptsProperties M properties ms ∧
      AcceptsRest M rest (properties.map Property.name) ms
  | .nullable v, x => x = some .null ∨ Accepts M v x
  | .described v _, x => Accepts M v x
  termination_by structural v => v

/-- What some validator of a list accepts. -/
def AcceptsAny (M : Measures) : List Validator → Option Json → Prop
  | [], _ => False
  | v :: vs, x => Accepts M v x ∨ AcceptsAny M vs x
  termination_by structural vs => vs

/-- Items that are accepted one by one, as many as there are validators. -/
def AcceptsInOrder (M : Measures) : List Validator → List Json → Prop
  | [], ys => ys = []
  | v :: vs, ys => ∃ y zs, ys = y :: zs ∧ Accepts M v (some y) ∧ AcceptsInOrder M vs zs
  termination_by structural vs => vs

/-- Members that are accepted as the properties that they are.  A property that need not be there
may be missing; any other one only if its validator accepts the lack of a value. -/
def AcceptsProperties (M : Measures) : List (Property Validator) → Json.Members → Prop
  | [], _ => True
  | ⟨name, required, v⟩ :: ps, ms =>
    (match Json.Members.lookup ms name with
      | some y => Accepts M v (some y)
      | none => required = false ∨ Accepts M v none) ∧ AcceptsProperties M ps ms
  termination_by structural ps => ps

/-- Members other than those named that are accepted. -/
def AcceptsRest (M : Measures) : Rest Validator → List String → Json.Members → Prop
  | .free, _, _ => True
  | .nothing, names, ms => ∀ m ∈ ms, m.1 ∈ names
  | .each v, names, ms => ∀ m ∈ ms, m.1 ∉ names → Accepts M v (some m.2)
  termination_by structural r => r

end

/-! ## Membership -/

variable {M : Measures}

/-- A union accepts what some member accepts. -/
theorem accepts_union_iff {vs : List Validator} {x : Option Json} :
    Accepts M (.union vs) x ↔ ∃ v ∈ vs, Accepts M v x := by
  rw [Accepts]
  induction vs with
  | nil => simp [AcceptsAny]
  | cons v vs ih => simp [AcceptsAny, ih]

/-- Members are accepted property by property. -/
theorem acceptsProperties_iff {ps : List (Property Validator)} {ms : Json.Members} :
    AcceptsProperties M ps ms ↔ ∀ p ∈ ps,
      (∀ y, Json.Members.lookup ms p.name = some y → Accepts M p.value (some y)) ∧
      (Json.Members.lookup ms p.name = none → p.required = false ∨ Accepts M p.value none) := by
  induction ps with
  | nil => simp [AcceptsProperties]
  | cons p ps ih =>
    rw [AcceptsProperties, ih, List.forall_mem_cons]
    refine and_congr_left fun _ => ?_
    cases Json.Members.lookup ms p.name with
    | none => simp
    | some y => simp

/-- Several validators in one accept what each of them accepts. -/
theorem accepts_foldl_intersection_iff {v : Validator} {vs : List Validator} {x : Option Json} :
    Accepts M (vs.foldl .intersection v) x ↔ ∀ w ∈ v :: vs, Accepts M w x := by
  induction vs generalizing v with
  | nil => simp
  | cons w vs ih =>
    rw [List.foldl_cons, ih]
    simp only [List.mem_cons, forall_eq_or_imp, Accepts]
    exact and_assoc

end Validator

end Promptwright
