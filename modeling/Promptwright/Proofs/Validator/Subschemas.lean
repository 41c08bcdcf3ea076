import Mathlib.Logic.Relation
import Promptwright.Json.Value

/-!
# The schemas below a schema

`Json.Child` relates the schemas just below a node to the node, in the places where schemas are
looked for.  A schema below is smaller, so that what holds of a schema whenever it holds of those
just below holds of all of them.

## Key results

- `Members.Only.lookup_ne`: a key that is not among the only ones has no value
- `Child.sizeOf_lt`, `child_induction`: recursion into the schemas below
-/

namespace Promptwright.Json

/-! ## Keys -/

/-- The member that a key is looked up in. -/
theorem Members.mem_of_lookup {ms : Members} {key : String} {j : Json}
    (h : lookup ms key = some j) : (key, j) ∈ ms := by
  induction ms with
  | nil => cases h
  | cons m ms ih =>
    obtain ⟨k, v⟩ := m
    rw [lookup, List.lookup_cons] at h
    by_cases hk : key = k
    · subst hk
      simp only [BEq.rfl, Option.some.injEq] at h
      rw [h]
      exact List.mem_cons_self
    · simp only [beq_false_of_ne hk] at h
      exact List.mem_cons_of_mem _ (ih h)

/-- Whether the keys of an object are among some. -/
def Members.Only (keys : List String) (ms : Members) : Prop := ∀ m ∈ ms, m.1 ∈ keys

instance (keys : List String) (ms : Members) : Decidable (Members.Only keys ms) :=
  inferInstanceAs (Decidable (∀ m ∈ ms, m.1 ∈ keys))

/-- Any other key has no value. -/
theorem Members.Only.lookup_ne {keys : List String} {ms : Members} {key : String} {j : Json}
    (h : Members.Only keys ms) (hkey : key ∉ keys) : ms.lookup key ≠ some j :=
  fun hj => hkey (h _ (mem_of_lookup hj))

/-- Looking up any other key finds nothing. -/
theorem Members.Only.lookup_eq_none {keys : List String} {ms : Members}
    (h : Members.Only keys ms) (key : String) (hkey : key ∉ keys) : ms.lookup key = none :=
  Option.eq_none_iff_forall_ne_some.mpr fun _ => h.lookup_ne hkey

/-! ## Sizes -/

/-- A part of the members of an object is smaller than the members. -/
theorem Members.sizeOf_lt_of_mem {ms : Members} {m : String × Json} (h : m ∈ ms) :
    sizeOf m.2 < sizeOf ms := by
  have := List.sizeOf_lt_of_mem h
  have : sizeOf m = 1 + sizeOf m.1 + sizeOf m.2 := rfl
  omega

/-- The value of a key is smaller than the object. -/
theorem sizeOf_lt_of_lookup {ms : Members} {key : String} {j : Json}
    (h : ms.lookup key = some j) : sizeOf j < sizeOf (object ms) := by
  have : sizeOf j < sizeOf ms := Members.sizeOf_lt_of_mem (Members.mem_of_lookup h)
  rw [object.sizeOf_spec]
  omega

/-- An item of a list under a key is smaller than the object. -/
theorem sizeOf_lt_of_item {ms : Members} {key : String} {js : List Json} {j : Json}
    (h : ms.lookup key = some (.array js)) (hj : j ∈ js) : sizeOf j < sizeOf (object ms) := by
  have := sizeOf_lt_of_lookup h
  have := List.sizeOf_lt_of_mem hj
  rw [array.sizeOf_spec] at *
  omega

/-- A member of an object under a key is smaller than the object. -/
theorem sizeOf_lt_of_member {ms ps : Members} {key : String} {p : String × Json}
    (h : ms.lookup key = some (.object ps)) (hp : p ∈ ps) :
    sizeOf p.2 < sizeOf (object ms) := by
  have := sizeOf_lt_of_lookup h
  have := Members.sizeOf_lt_of_mem hp
  have : sizeOf (object ps) = 1 + sizeOf ps := object.sizeOf_spec ps
  omega

/-- Whether a value has the shape of a schema. -/
def isSchema : Json → Bool
  | .bool _ => true
  | .object _ => true
  | _ => false

/-! ## Places of schemas -/

/-- The keywords with lists of schemas that a value is compared with. -/
def combinators : List String := ["anyOf", "oneOf", "allOf"]

/-- The schemas under `properties`. -/
def declared (ms : Members) : Members :=
  match ms.lookup "properties" with
  | some (.object ps) => ps
  | _ => []

/-- The names under `properties`. -/
def propertyNames (ms : Members) : List String := (declared ms).map Prod.fst

/-- The first value is a schema just below the second one. -/
inductive Child : Json → Json → Prop
  | member {ms : Members} {key : String} {js : List Json} {j : Json} (hkey : key ∈ combinators)
      (h : ms.lookup key = some (.array js)) (hj : j ∈ js) : Child j (.object ms)
  | items {ms : Members} {j : Json} (h : ms.lookup "items" = some j) (hj : ∀ js, j ≠ .array js) :
      Child j (.object ms)
  | item {ms : Members} {js : List Json} {j : Json} (h : ms.lookup "items" = some (.array js))
      (hj : j ∈ js) : Child j (.object ms)
  | property {ms ps : Members} {p : String × Json} (h : ms.lookup "properties" = some (.object ps))
      (hp : p ∈ ps) : Child p.2 (.object ms)
  | additional {ms os : Members} (h : ms.lookup "additionalProperties" = some (.object os)) :
      Child (.object os) (.object ms)

/-- A condition holds of all schemas just below a node. -/
def Below (P : Json → Prop) (ms : Members) : Prop := ∀ c, Child c (.object ms) → P c

/-- A schema below a node is smaller than the node. -/
theorem Child.sizeOf_lt {c s : Json} (h : Child c s) : sizeOf c < sizeOf s := by
  cases h with
  | member _ h hj => exact sizeOf_lt_of_item h hj
  | items h _ => exact sizeOf_lt_of_lookup h
  | item h hj => exact sizeOf_lt_of_item h hj
  | property h hp => exact sizeOf_lt_of_member h hp
  | additional h => exact sizeOf_lt_of_lookup h

/-- A schema that is declared is a member of `properties`. -/
theorem exists_of_mem_declared {ms : Members} {p : String × Json} (hp : p ∈ declared ms) :
    ∃ ps, ms.lookup "properties" = some (.object ps) ∧ p ∈ ps := by
  rw [declared] at hp
  split at hp
  next ps hps => exact ⟨ps, hps, hp⟩
  next => cases hp

/-- A schema that is declared is below. -/
theorem Child.of_declared {ms : Members} {p : String × Json} (hp : p ∈ declared ms) :
    Child p.2 (.object ms) := by
  obtain ⟨ps, hps, hp⟩ := exists_of_mem_declared hp
  exact .property hps hp

/-- What holds of a schema if it holds of the schemas just below holds of all schemas. -/
theorem child_induction {P : Json → Prop} (step : ∀ s, (∀ c, Child c s → P c) → P s) (s : Json) :
    P s :=
  step s fun c _ => child_induction step c
termination_by sizeOf s
decreasing_by exact Child.sizeOf_lt ‹_›

/-- The first value is the second one or a schema below it, at any depth. -/
abbrev Within : Json → Json → Prop := Relation.ReflTransGen Child

/-- A condition on all schemas in a schema. -/
def Everywhere (P : Json → Prop) (schema : Json) : Prop := ∀ node, Within node schema → P node

namespace Everywhere

variable {P : Json → Prop} {s c : Json}

/-- The condition holds of the schema itself. -/
theorem here (h : Everywhere P s) : P s := h s .refl

/-- The condition holds everywhere in the schemas below. -/
theorem below (h : Everywhere P s) (hc : Child c s) : Everywhere P c :=
  fun node hn => h node (hn.tail hc)

/-- A condition holds everywhere if it holds of the schema and everywhere in those below. -/
theorem intro (hs : P s) (hc : ∀ c, Child c s → Everywhere P c) : Everywhere P s := by
  intro node hn
  obtain rfl | ⟨c, hnc, hcs⟩ := Relation.ReflTransGen.cases_tail_iff _ _ _ |>.mp hn
  · exact hs
  · exact hc c hcs node hnc

/-- A node without schemas below is all there is. -/
theorem leaf {ms : Members} (hs : P (.object ms))
    (hk : ∀ m ∈ ms, m.1 ∉ combinators ++ ["items", "properties", "additionalProperties"]) :
    Everywhere P (.object ms) := by
  refine intro hs fun c hc => ?_
  have habsent : ∀ key j, ms.lookup key = some j →
      key ∉ combinators ++ ["items", "properties", "additionalProperties"] :=
    fun key j h => hk (key, j) (Members.mem_of_lookup h)
  cases hc with
  | member hkey h _ => exact (habsent _ _ h (List.mem_append_left _ hkey)).elim
  | items h _ => exact (habsent _ _ h (by decide)).elim
  | item h _ => exact (habsent _ _ h (by decide)).elim
  | property h _ => exact (habsent _ _ h (by decide)).elim
  | additional h => exact (habsent _ _ h (by decide)).elim

end Everywhere

end Promptwright.Json
