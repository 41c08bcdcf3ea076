import Promptwright.Validator.OfSchema
import Promptwright.Proofs.Validator.Accepts
import Promptwright.Proofs.Validator.Subschemas

/-!
# What a schema means

`Measures.Satisfies` says when a JSON value satisfies a JSON Schema.  It knows nothing of
validators: every keyword of a node makes its demand, `nullable` allows null besides, and a bound
next to a boolean `exclusiveMinimum` or `exclusiveMaximum` is read as in draft 4.  A keyword whose argument
has a shape that the keyword cannot have demands nothing, and neither does a name that is no type.

## Key results

- `satisfies_object_iff`: the demands of a node
- `satisfies_bool_iff`: schemas that are booleans
-/

namespace Promptwright

namespace Measures

open Json (propertyNames)
open Validator (isTrue)

/-! ## Demands without schemas in them -/

/-- The keywords that are read here or that demand nothing. -/
def knownKeywords : List String :=
  ["const", "enum", "anyOf", "oneOf", "allOf", "type", "minLength", "maxLength", "minimum",
    "exclusiveMinimum", "maximum", "exclusiveMaximum", "multipleOf", "items", "minItems",
    "maxItems", "properties", "required", "additionalProperties", "nullable", "description"]

/-- Whether a value has a type. -/
def HasType (M : Measures) (type : String) (x : Json) : Prop :=
  match type with
  | "string" => ∃ s, x = .string s
  | "number" => ∃ n, x = .number n
  | "integer" => ∃ n, x = .number n ∧ M.whole n
  | "boolean" => ∃ b, x = .bool b
  | "null" => x = .null
  | "array" => ∃ ys, x = .array ys
  | "object" => ∃ ms, x = .object ms
  | _ => True

/-- The demand of `type`: one type, or any of several. -/
def TypeKeyword (M : Measures) (type x : Json) : Prop :=
  match type with
  | .string t => M.HasType t x
  | .array ts => ∃ t ∈ ts, ∀ s, t = .string s → M.HasType s x
  | _ => True

/-- The demands on a text. -/
structure TextKeywords (M : Measures) (ms : Json.Members) (s : String) : Prop where
  minLength : ∀ n, ms.lookup "minLength" = some (.number n) → M.le n (count (M.length s))
  maxLength : ∀ n, ms.lookup "maxLength" = some (.number n) → M.le (count (M.length s)) n

/-- The demands on a number. -/
structure NumberKeywords (M : Measures) (ms : Json.Members) (n : Json.Number) : Prop where
  minimum : ∀ b, ms.lookup "minimum" = some (.number b) →
    if isTrue ms "exclusiveMinimum" then M.lt b n else M.le b n
  exclusiveMinimum : ∀ b, ms.lookup "exclusiveMinimum" = some (.number b) → M.lt b n
  maximum : ∀ b, ms.lookup "maximum" = some (.number b) →
    if isTrue ms "exclusiveMaximum" then M.lt n b else M.le n b
  exclusiveMaximum : ∀ b, ms.lookup "exclusiveMaximum" = some (.number b) → M.lt n b
  multipleOf : ∀ b, ms.lookup "multipleOf" = some (.number b) → M.multiple n b

/-- The demands on the number of items. -/
structure SizeKeywords (M : Measures) (ms : Json.Members) (size : Nat) : Prop where
  minItems : ∀ n, ms.lookup "minItems" = some (.number n) → M.le n (count size)
  maxItems : ∀ n, ms.lookup "maxItems" = some (.number n) → M.le (count size) n

/-- The demands to be one of some values, and of some type. -/
structure ValueKeywords (M : Measures) (ms : Json.Members) (x : Json) : Prop where
  const : ∀ j, ms.lookup "const" = some j → M.Equal j x
  enum : ∀ js, ms.lookup "enum" = some (.array js) → ∃ j ∈ js, M.Equal j x
  type : ∀ j, ms.lookup "type" = some j → M.TypeKeyword j x

/-- The names that an object must have. -/
def RequiredKeyword (ms xs : Json.Members) : Prop :=
  ∀ names, ms.lookup "required" = some (.array names) →
    ∀ name, .string name ∈ names → (xs.lookup name).isSome

/-- The demands on a value that depend on its type. -/
def KindKeywords (M : Measures) (ms : Json.Members) : Json → Prop
  | .string s => M.TextKeywords ms s
  | .number n => M.NumberKeywords ms n
  | .array ys => M.SizeKeywords ms ys.length
  | .object xs => RequiredKeyword ms xs
  | _ => True

/-- The demands of the keywords that are not read here. -/
def OtherKeywords (M : Measures) (ms : Json.Members) (x : Json) : Prop :=
  ∀ m ∈ ms, m.1 ∉ knownKeywords → M.demands ms m.1 m.2 x

/-! ## The demands of a schema -/

/-- Whether a value satisfies a schema. -/
def Satisfies (M : Measures) (schema x : Json) : Prop :=
  match schema with
  | .bool b => b = true
  | .object ms =>
    (isTrue ms "nullable" = true ∧ x = .null) ∨
    (M.ValueKeywords ms x ∧ M.KindKeywords ms x ∧ M.OtherKeywords ms x ∧
      -- some member, exactly one member, all members
      (∀ js, ms.lookup "anyOf" = some (.array js) → ∃ j, ∃ _ : j ∈ js, Satisfies M j x) ∧
      (∀ js, ms.lookup "oneOf" = some (.array js) →
        ∃ i : Fin js.length, ∀ k : Fin js.length, Satisfies M (js.get k) x ↔ k = i) ∧
      (∀ js, ms.lookup "allOf" = some (.array js) → ∀ j ∈ js, Satisfies M j x) ∧
      -- one schema for all items, or one for each place
      (∀ j, ms.lookup "items" = some j → j.isSchema = true →
        ∀ ys, x = .array ys → ∀ y ∈ ys, Satisfies M j y) ∧
      (∀ js, ms.lookup "items" = some (.array js) → ∀ ys, x = .array ys →
        ∀ (k : Fin js.length) y, ys[k.val]? = some y → Satisfies M (js.get k) y) ∧
      -- members that are declared, and those that are not
      (∀ ps, ms.lookup "properties" = some (.object ps) → ∀ xs, x = .object xs →
        ∀ p ∈ ps, ∀ y, Json.Members.lookup xs p.1 = some y → Satisfies M p.2 y) ∧
      (∀ j, ms.lookup "additionalProperties" = some j → j.isSchema = true →
        ∀ xs, x = .object xs → ∀ m ∈ xs, m.1 ∉ propertyNames ms → Satisfies M j m.2))
  | _ => False
termination_by sizeOf schema
decreasing_by
  · exact Json.sizeOf_lt_of_item ‹_› ‹_›
  · exact Json.sizeOf_lt_of_item ‹_› (List.get_mem _ _)
  · exact Json.sizeOf_lt_of_item ‹_› ‹_›
  · exact Json.sizeOf_lt_of_lookup ‹_›
  · exact Json.sizeOf_lt_of_item ‹_› (List.get_mem _ _)
  · exact Json.sizeOf_lt_of_member ‹_› ‹_›
  · exact Json.sizeOf_lt_of_lookup ‹_›

/-- The demands that compare a value with several schemas. -/
structure CombinedKeywords (M : Measures) (ms : Json.Members) (x : Json) : Prop where
  anyOf : ∀ js, ms.lookup "anyOf" = some (.array js) → ∃ j ∈ js, M.Satisfies j x
  oneOf : ∀ js, ms.lookup "oneOf" = some (.array js) →
    ∃ i : Fin js.length, ∀ k : Fin js.length, M.Satisfies (js.get k) x ↔ k = i
  allOf : ∀ js, ms.lookup "allOf" = some (.array js) → ∀ j ∈ js, M.Satisfies j x

/-- The demands on the parts of a value. -/
structure PartKeywords (M : Measures) (ms : Json.Members) (x : Json) : Prop where
  items : ∀ j, ms.lookup "items" = some j → j.isSchema = true →
    ∀ ys, x = .array ys → ∀ y ∈ ys, M.Satisfies j y
  inOrder : ∀ js, ms.lookup "items" = some (.array js) → ∀ ys, x = .array ys →
    ∀ (k : Fin js.length) y, ys[k.val]? = some y → M.Satisfies (js.get k) y
  properties : ∀ ps, ms.lookup "properties" = some (.object ps) → ∀ xs, x = .object xs →
    ∀ p ∈ ps, ∀ y, Json.Members.lookup xs p.1 = some y → M.Satisfies p.2 y
  additional : ∀ j, ms.lookup "additionalProperties" = some j → j.isSchema = true →
    ∀ xs, x = .object xs → ∀ m ∈ xs, m.1 ∉ propertyNames ms → M.Satisfies j m.2

/-- The demands of a node, apart from what `nullable` allows. -/
structure Demands (M : Measures) (ms : Json.Members) (x : Json) : Prop where
  value : M.ValueKeywords ms x
  kind : M.KindKeywords ms x
  other : M.OtherKeywords ms x
  combined : M.CombinedKeywords ms x
  parts : M.PartKeywords ms x

variable {M : Measures} {ms : Json.Members} {x : Json}

/-- The meaning of a node: null where `nullable` says so, and what meets all demands. -/
theorem satisfies_object_iff :
    M.Satisfies (.object ms) x ↔ (isTrue ms "nullable" = true ∧ x = .null) ∨ M.Demands ms x := by
  rw [Satisfies]
  refine or_congr_right ⟨?_, ?_⟩
  · rintro ⟨value, kind, other, anyOf, oneOf, allOf, items, inOrder, properties, additional⟩
    refine ⟨value, kind, other, ⟨fun js h => ?_, oneOf, allOf⟩,
      ⟨items, inOrder, properties, additional⟩⟩
    obtain ⟨j, hj, hx⟩ := anyOf js h
    exact ⟨j, hj, hx⟩
  · rintro ⟨value, kind, other, ⟨anyOf, oneOf, allOf⟩, ⟨items, inOrder, properties, additional⟩⟩
    refine ⟨value, kind, other, fun js h => ?_, oneOf, allOf, items, inOrder, properties,
      additional⟩
    obtain ⟨j, hj, hx⟩ := anyOf js h
    exact ⟨j, hj, hx⟩

/-- The meaning of a boolean schema. -/
theorem satisfies_bool_iff {b : Bool} : M.Satisfies (.bool b) x ↔ b = true := by
  rw [Satisfies]

end Measures

end Promptwright
