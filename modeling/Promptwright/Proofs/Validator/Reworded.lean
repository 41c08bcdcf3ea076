import Promptwright.Proofs.Validator.Nodes

/-!
# Schemas in other words

Two schemas are `Reworded` if they differ in free text only: in descriptions and patterns, in texts
among constant values, and in names of types that nobody knows.  They have the same keys in the same
order, and reworded schemas below.  Under keywords that are not read, anything may differ.

## Key results

- `lookup_reworded`: what is found under a key is reworded
- `lookup_eq`: under keywords without free text, the same is found
- `decider_eq`: reworded nodes are decided by the same keyword
-/

namespace Promptwright.Validator

open Json (declared)
open Json.Members (lookup)

/-! ## The relation -/

/-- The same value, or two texts. -/
inductive RewordedValue : Json → Json → Prop
  | same (j : Json) : RewordedValue j j
  | text (s t : String) : RewordedValue (.string s) (.string t)

/-- The same name of a type, or two that are unknown. -/
inductive RewordedType : Json → Json → Prop
  | same (j : Json) : RewordedType j j
  | unknown {s t : String} (hs : s ∉ kinds) (ht : t ∉ kinds) :
      RewordedType (.string s) (.string t)

/-- The keywords with texts for people and for other machines. -/
def textKeywords : List String := ["description", "pattern"]

/-- The keywords with schemas. -/
def schemaKeywords : List String := ["items", "additionalProperties"]

/-- The keywords with lists of schemas. -/
def listKeywords : List String := ["anyOf", "oneOf", "allOf", "items"]

/-- The keywords with values, types and properties. -/
def valueKeywords : List String := ["const", "enum", "type", "properties"]

/-- The keywords without free text. -/
def plainKeywords : List String :=
  ["nullable", "format", "minLength", "maxLength", "minimum", "exclusiveMinimum", "maximum",
    "exclusiveMaximum", "multipleOf", "minItems", "maxItems", "required"]

/-- All keywords that are read. -/
def readKeywords : List String :=
  plainKeywords ++ textKeywords ++ schemaKeywords ++ listKeywords ++ valueKeywords

mutual

/-- Two schemas that differ in free text only. -/
inductive Reworded : Json → Json → Prop
  | same (j : Json) : Reworded j j
  | node {ms ns : Json.Members} (h : List.Forall₂ RewordedMember ms ns) :
      Reworded (.object ms) (.object ns)

/-- Two members of schemas with the same key. -/
inductive RewordedMember : String × Json → String × Json → Prop
  | mk {key : String} {j k : Json} (h : RewordedKeyword key j k) : RewordedMember (key, j) (key, k)

/-- Two values of a keyword. -/
inductive RewordedKeyword : String → Json → Json → Prop
  | same (key : String) (j : Json) : RewordedKeyword key j j
  | unread {key : String} (hkey : key ∉ readKeywords) (j k : Json) : RewordedKeyword key j k
  | text {key : String} (hkey : key ∈ textKeywords) (s t : String) :
      RewordedKeyword key (.string s) (.string t)
  | const {key : String} {j k : Json} (hkey : key = "const") (h : RewordedValue j k) :
      RewordedKeyword key j k
  | enum {key : String} {js ks : List Json} (hkey : key = "enum")
      (h : List.Forall₂ RewordedValue js ks) : RewordedKeyword key (.array js) (.array ks)
  | type {key : String} {j k : Json} (hkey : key = "type") (h : RewordedType j k) :
      RewordedKeyword key j k
  | types {key : String} {js ks : List Json} (hkey : key = "type")
      (h : List.Forall₂ RewordedType js ks) : RewordedKeyword key (.array js) (.array ks)
  | schema {key : String} {j k : Json} (hkey : key ∈ schemaKeywords) (h : Reworded j k) :
      RewordedKeyword key j k
  | schemas {key : String} {js ks : List Json} (hkey : key ∈ listKeywords)
      (h : List.Forall₂ Reworded js ks) : RewordedKeyword key (.array js) (.array ks)
  | properties {key : String} {ps qs : Json.Members} (hkey : key = "properties")
      (h : List.Forall₂ RewordedProperty ps qs) : RewordedKeyword key (.object ps) (.object qs)

/-- Two properties with the same name. -/
inductive RewordedProperty : String × Json → String × Json → Prop
  | mk {name : String} {j k : Json} (h : Reworded j k) : RewordedProperty (name, j) (name, k)

end

variable {ms ns : Json.Members}

/-- A schema is its own rewording, member by member. -/
theorem forall₂_rewordedMember_refl (ms : Json.Members) : List.Forall₂ RewordedMember ms ms := by
  induction ms with
  | nil => exact .nil
  | cons m ms ih => exact .cons (.mk (.same m.1 m.2)) ih

/-- Reworded nodes are reworded member by member. -/
theorem Reworded.members (h : Reworded (.object ms) (.object ns)) :
    List.Forall₂ RewordedMember ms ns := by
  cases h with
  | same => exact forall₂_rewordedMember_refl ms
  | node h => exact h

/-! ## Keys -/

/-- Under a key, nothing is found in both or reworded values. -/
theorem lookup_reworded (h : List.Forall₂ RewordedMember ms ns) (key : String) :
    (lookup ms key = none ∧ lookup ns key = none) ∨
      ∃ j k, lookup ms key = some j ∧ lookup ns key = some k ∧ RewordedKeyword key j k := by
  induction h with
  | nil => exact .inl ⟨rfl, rfl⟩
  | cons hm _ ih =>
    cases hm with
    | @mk k' j k hm =>
      rw [lookup_cons, lookup_cons]
      by_cases hk : k' = key
      · rw [if_pos hk, if_pos hk]
        exact .inr ⟨j, k, rfl, rfl, hk ▸ hm⟩
      · rw [if_neg hk, if_neg hk]
        exact ih

/-- What is found under a key is reworded to what is found under it. -/
theorem exists_lookup_reworded (h : List.Forall₂ RewordedMember ms ns) {key : String} {j : Json}
    (hj : lookup ms key = some j) : ∃ k, lookup ns key = some k ∧ RewordedKeyword key j k := by
  obtain ⟨hnone, -⟩ | ⟨j', k, hj', hk, hjk⟩ := lookup_reworded h key
  · cases hnone.symm.trans hj
  · cases hj'.symm.trans hj
    exact ⟨k, hk, hjk⟩

/-- A keyword without free text has one value only. -/
theorem RewordedKeyword.eq {key : String} {j k : Json} (h : RewordedKeyword key j k)
    (hkey : key ∈ plainKeywords) : j = k := by
  have hnot : ∀ key ∈ plainKeywords, key ∈ readKeywords ∧ key ∉ textKeywords ∧
      key ∉ schemaKeywords ∧ key ∉ listKeywords ∧ key ∉ valueKeywords := by decide
  obtain ⟨hread, htext, hschema, hlist, hvalue⟩ := hnot key hkey
  cases h with
  | same => rfl
  | unread hu _ _ => exact (hu hread).elim
  | text ht _ _ => exact (htext ht).elim
  | schema hs _ => exact (hschema hs).elim
  | schemas hl _ => exact (hlist hl).elim
  | const he _ | enum he _ | type he _ | types he _ | properties he _ =>
    exact (hvalue (by simp [he, valueKeywords])).elim

/-- Under a keyword without free text, the same is found. -/
theorem lookup_eq (h : List.Forall₂ RewordedMember ms ns) (key : String)
    (hkey : key ∈ plainKeywords) : lookup ms key = lookup ns key := by
  obtain ⟨hj, hk⟩ | ⟨j, k, hj, hk, hjk⟩ := lookup_reworded h key
  · rw [hj, hk]
  · rw [hj, hk, hjk.eq hkey]

/-- A keyword without free text is `true` in both or in none. -/
theorem isTrue_eq (h : List.Forall₂ RewordedMember ms ns) (key : String)
    (hkey : key ∈ plainKeywords) : isTrue ms key = isTrue ns key := by
  rw [isTrue, isTrue, lookup_eq h key hkey]

/-- A key is there in both or in none. -/
theorem isSome_lookup_eq (h : List.Forall₂ RewordedMember ms ns) (key : String) :
    (lookup ms key).isSome = (lookup ns key).isSome := by
  obtain ⟨hj, hk⟩ | ⟨j, k, hj, hk, -⟩ := lookup_reworded h key
  · rw [hj, hk]
  · rw [hj, hk, Option.isSome_some, Option.isSome_some]

/-- Reworded nodes are decided by the same keyword. -/
theorem decider_eq (h : List.Forall₂ RewordedMember ms ns) : decider ms = decider ns := by
  simp only [decider, isSome_lookup_eq h]

/-! ## Values of keywords -/

namespace RewordedKeyword

variable {key : String} {j k : Json} {js : List Json}

/-- A text for people is reworded to another one. -/
theorem of_text (h : RewordedKeyword key j k) (hkey : key ∈ textKeywords) :
    j = k ∨ ∃ s t, j = .string s ∧ k = .string t := by
  have hnot : ∀ key ∈ textKeywords, key ∈ readKeywords ∧ key ∉ schemaKeywords ∧
      key ∉ listKeywords ∧ key ∉ valueKeywords := by decide
  obtain ⟨hread, hschema, hlist, hvalue⟩ := hnot key hkey
  cases h with
  | same => exact .inl rfl
  | unread hu _ _ => exact (hu hread).elim
  | text _ s t => exact .inr ⟨s, t, rfl, rfl⟩
  | schema hs _ => exact (hschema hs).elim
  | schemas hs _ => exact (hlist hs).elim
  | const he _ | enum he _ | type he _ | types he _ | properties he _ =>
    exact (hvalue (by simp [he, valueKeywords])).elim

/-- A constant is reworded to a constant. -/
theorem of_const (h : RewordedKeyword "const" j k) : RewordedValue j k := by
  cases h with
  | same => exact .same j
  | const _ h => exact h
  | unread hkey _ _ | text hkey _ _ | enum hkey _ | type hkey _ | types hkey _ | schema hkey _
  | schemas hkey _ | properties hkey _ => exact absurd hkey (by decide)

/-- Several values are reworded one by one. -/
theorem of_enum (h : RewordedKeyword "enum" (.array js) k) :
    ∃ ks, k = .array ks ∧ List.Forall₂ RewordedValue js ks := by
  cases h with
  | same => exact ⟨js, rfl, List.forall₂_same.mpr fun j _ => .same j⟩
  | enum _ h => exact ⟨_, rfl, h⟩
  | unread hkey _ _ | const hkey _ | type hkey _ | types hkey _ | schema hkey _
  | schemas hkey _ => exact absurd hkey (by decide)

/-- A name of a type is reworded to one. -/
theorem of_type (h : RewordedKeyword "type" j k) (hj : ∀ js, j ≠ .array js) : RewordedType j k := by
  cases h with
  | same => exact .same j
  | type _ h => exact h
  | types _ _ => exact (hj _ rfl).elim
  | unread hkey _ _ | text hkey _ _ | const hkey _ | enum hkey _ | schema hkey _
  | schemas hkey _ | properties hkey _ => exact absurd hkey (by decide)

/-- Several names of types are reworded one by one. -/
theorem of_types (h : RewordedKeyword "type" (.array js) k) :
    ∃ ks, k = .array ks ∧ List.Forall₂ RewordedType js ks := by
  have hrefl : List.Forall₂ RewordedType js js := List.forall₂_same.mpr fun j _ => .same j
  cases h with
  | same => exact ⟨js, rfl, hrefl⟩
  | types _ h => exact ⟨_, rfl, h⟩
  | type _ h =>
    cases h
    exact ⟨js, rfl, hrefl⟩
  | unread hkey _ _ | const hkey _ | enum hkey _ | schema hkey _ | schemas hkey _ =>
    exact absurd hkey (by decide)

/-- Schemas in a list are reworded one by one. -/
theorem of_schemas (h : RewordedKeyword key (.array js) k) (hkey : key ∈ listKeywords) :
    ∃ ks, k = .array ks ∧ List.Forall₂ Reworded js ks := by
  have hnot : ∀ key ∈ listKeywords, key ∈ readKeywords ∧ key ∉ valueKeywords := by decide
  obtain ⟨hread, hvalue⟩ := hnot key hkey
  have hrefl : List.Forall₂ Reworded js js := List.forall₂_same.mpr fun j _ => .same j
  cases h with
  | same => exact ⟨js, rfl, hrefl⟩
  | unread hu _ _ => exact (hu hread).elim
  | schemas _ h => exact ⟨_, rfl, h⟩
  | schema _ h =>
    cases h
    exact ⟨js, rfl, hrefl⟩
  | const he _ | enum he _ | type he _ | types he _ =>
    exact (hvalue (by simp [he, valueKeywords])).elim

/-- A schema is reworded to a schema. -/
theorem of_schema (h : RewordedKeyword key j k) (hkey : key ∈ schemaKeywords)
    (hj : key ∈ listKeywords → ∀ js, j ≠ .array js) : Reworded j k := by
  have hnot : ∀ key ∈ schemaKeywords, key ∈ readKeywords ∧ key ∉ textKeywords ∧
      key ∉ valueKeywords := by decide
  obtain ⟨hread, htext, hvalue⟩ := hnot key hkey
  cases h with
  | same => exact .same j
  | unread hu _ _ => exact (hu hread).elim
  | schema _ h => exact h
  | text ht _ _ => exact (htext ht).elim
  | schemas hl _ => exact (hj hl _ rfl).elim
  | const he _ | enum he _ | type he _ | types he _ | properties he _ =>
    exact (hvalue (by simp [he, valueKeywords])).elim

/-- Properties are reworded one by one. -/
theorem of_properties {ps : Json.Members} (h : RewordedKeyword "properties" (.object ps) k) :
    ∃ qs, k = .object qs ∧ List.Forall₂ RewordedProperty ps qs := by
  cases h with
  | same => exact ⟨ps, rfl, List.forall₂_same.mpr fun p _ => .mk (.same p.2)⟩
  | properties _ h => exact ⟨_, rfl, h⟩
  | unread hkey _ _ | const hkey _ | type hkey _ | schema hkey _ => exact absurd hkey (by decide)

end RewordedKeyword

end Promptwright.Validator
