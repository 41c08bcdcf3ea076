import Promptwright.Proofs.Validator.Keywords
import Promptwright.Proofs.Validator.UniqueReading

/-!
# Validators accept all that satisfies plain schemas

What is not read from a node only makes its validator accept more.  So wherever a schema has a
validator, the values that satisfy the schema are accepted, unless some keyword is read in another
way than schemas mean it.  Plain schemas have no such keyword.

## Key results

- `accepts_of_decision`: what meets the demands of a node is accepted, whatever decides
- `accepts_of_satisfies`: what satisfies a plain schema is accepted
-/

namespace Promptwright.Validator

open Json (Below Everywhere declared propertyNames child_induction)
open Json.Members (lookup)
open Measures (Demands PartKeywords)

/-! ## The class -/

/-- The keywords that are read in another way, or that change what others mean. -/
def unplainKeywords : List String :=
  ["prefixItems", "patternProperties", "$ref", "pattern", "format"]

/-- A node without such keywords and without a list of schemas for items. -/
structure PlainMembers (ms : Json.Members) : Prop where
  absent : ∀ key ∈ unplainKeywords, lookup ms key = none
  items : ∀ js, lookup ms "items" ≠ some (.array js)

/-- Every node at any depth is without such keywords. -/
def Plain (schema : Json) : Prop :=
  Everywhere (fun node => ∀ ms, node = .object ms → PlainMembers ms) schema

/-- All validators that a schema yields accept what satisfies it. -/
def Complete (M : Measures) (schema : Json) : Prop :=
  ∀ v, Yields schema v → ∀ x, M.Satisfies schema x → Accepts M v (some x)

variable {M : Measures} {ms : Json.Members} {x : Json} {v : Validator}

/-! ## Types -/

/-- The conditions on a text hold without a pattern and a format. -/
theorem forall_textChecks_of_plain {path : SchemaPath} {cs : List TextCheck} {s : String}
    (plain : PlainMembers ms) (hcs : textChecks path ms = .ok cs) (hs : M.TextKeywords ms s) :
    ∀ c ∈ cs, c.Holds M s := by
  rw [forall_textChecks_iff hcs, formatOf, plain.absent "pattern" (by decide),
    plain.absent "format" (by decide)]
  exact ⟨hs, by simp, by simp⟩

/-- The members of an object that meets the demands are accepted as properties. -/
theorem acceptsProperties_of_demands {path : SchemaPath} {names : List String}
    {xs : Json.Members} {qs : List (String × Validator)}
    (ih : Below (Complete M) ms)
    (hn : requiredNames path ms = .ok names)
    (hq : List.Forall₂ (fun p q => p.1 = q.1 ∧ Yields p.2 q.2) (declared ms) qs)
    (hx : M.Demands ms (.object xs)) :
    AcceptsProperties M (qs.map fun (name, v) => ⟨name, names.contains name, v⟩) xs := by
  rw [acceptsProperties_iff]
  intro p hp
  obtain ⟨q, hqs, rfl⟩ := List.mem_map.mp hp
  constructor
  · intro y hy
    obtain ⟨p, hp, hpq, hyields⟩ := exists_of_mem_right hq hqs
    obtain ⟨ps, hps, hp⟩ := Json.exists_of_mem_declared hp
    have hy : lookup xs p.1 = some y := by rw [hpq]; exact hy
    exact ih p.2 (.property hps hp) q.2 hyields y (hx.parts.properties ps hps xs rfl p hp y hy)
  · intro hnone
    have hnone : lookup xs q.1 = none := hnone
    -- a name that is required is there, so this one is not required
    refine .inl (Bool.eq_false_iff.mpr fun hc => ?_)
    have hmem : q.1 ∈ names := List.contains_iff_mem.mp hc
    obtain ⟨-, rfl⟩ | hnames := requiredNames_eq_ok hn
    · cases hmem
    · have hsome := hx.kind _ hnames q.1 (List.mem_map_of_mem hmem)
      rw [hnone] at hsome
      cases hsome

/-- The members of an object that are not declared are accepted as the rest. -/
theorem acceptsRest_of_demands {rest : Rest Validator} {xs : Json.Members}
    (ih : Below (Complete M) ms)
    (hr : Additional ms rest) (hx : M.Demands ms (.object xs)) :
    AcceptsRest M rest (propertyNames ms) xs := by
  cases hr with
  | each ho hv =>
    intro m hm hu
    exact ih _ (.additional ho) _ hv m.2 (hx.parts.additional _ ho rfl xs rfl m hm hu)
  | nothing ho =>
    intro m hm
    by_contra hu
    cases Measures.satisfies_bool_iff.mp (hx.parts.additional _ ho rfl xs rfl m hm hu)
  | free _ _ => trivial

/-- A value of a type that meets the demands is accepted for the type. -/
theorem accepts_of_typed (plain : PlainMembers ms)
    (ih : Below (Complete M) ms) {name : String} (h : Typed ms name v) (ht : M.HasType name x)
    (hx : M.Demands ms x) : Accepts M v (some x) := by
  -- by the type; the schemas of items and properties are below this one, and `ih` is about those
  cases h with
  | text hcs =>
    obtain ⟨s, rfl⟩ := ht
    exact ⟨s, rfl, forall_textChecks_of_plain plain hcs hx.kind⟩
  | number hcs =>
    obtain ⟨n, rfl⟩ := ht
    exact ⟨n, rfl, nofun, (forall_numberChecks_iff hcs n).mpr hx.kind⟩
  | integer hcs =>
    obtain ⟨n, rfl, hw⟩ := ht
    exact ⟨n, rfl, fun _ => hw, (forall_numberChecks_iff hcs n).mpr hx.kind⟩
  | boolean =>
    obtain ⟨b, rfl⟩ := ht
    exact ⟨b, rfl⟩
  | null => exact congrArg some ht
  | list _ hcs =>
    obtain ⟨ys, rfl⟩ := ht
    exact ⟨ys, rfl, fun _ _ => trivial, (forall_sizeChecks_iff hcs ys.length).mpr hx.kind⟩
  | each hi hj hv hcs =>
    obtain ⟨ys, rfl⟩ := ht
    refine ⟨ys, rfl, fun y hy => ?_, (forall_sizeChecks_iff hcs ys.length).mpr hx.kind⟩
    exact ih _ (.items hi hj) _ hv y (hx.parts.items _ hi (isSchema_of_yields hv) ys rfl y hy)
  | inOrder hi _ _ => exact (plain.items _ hi).elim
  | object hp hn hq hr =>
    obtain ⟨xs, rfl⟩ := ht
    refine ⟨xs, rfl, acceptsProperties_of_demands ih hn hq hx, ?_⟩
    rw [map_name_eq_propertyNames hq]
    exact acceptsRest_of_demands ih hr hx
  | unknown _ => trivial

/-! ## Nodes -/

/-- What meets the demands of a node is accepted by what decided about it. -/
theorem accepts_of_decision (plain : PlainMembers ms)
    (ih : Below (Complete M) ms) {d : Decider} (h : Decision ms d v) (hx : M.Demands ms x) :
    Accepts M v (some x) := by
  -- a keyword with members hands the value on to the schemas of its members, which are below
  cases h with
  | const h hj => exact ⟨hj, x, rfl, hx.value.const _ h⟩
  | enum h hjs => exact (accepts_ofValues_iff hjs).mpr ⟨x, rfl, hx.value.enum _ h⟩
  | anyOf h hvs =>
    obtain ⟨j, hj, hs⟩ := hx.combined.anyOf _ h
    obtain ⟨w, hw, hyields⟩ := exists_of_mem_left hvs hj
    exact accepts_union_members_iff.mpr
      (.inr ⟨w, hw, ih j (.member (by decide) h hj) w hyields x hs⟩)
  | oneOf h hvs =>
    obtain ⟨i, hi⟩ := hx.combined.oneOf _ h
    have hj := List.getElem_mem i.isLt
    obtain ⟨w, hw, hyields⟩ := exists_of_mem_left hvs hj
    exact accepts_union_members_iff.mpr
      (.inr ⟨w, hw, ih _ (.member (by decide) h hj) w hyields x ((hi i).mpr rfl)⟩)
  | allOf h hvs =>
    refine accepts_intersection_members_iff.mpr fun w hw => ?_
    obtain ⟨j, hj, hyields⟩ := exists_of_mem_right hvs hw
    exact ih j (.member (by decide) h hj) w hyields x (hx.combined.allOf _ h j hj)
  | type h hv => exact accepts_of_typed plain ih hv (hx.value.type _ h) hx
  | types h hvs =>
    obtain ⟨t, ht, hs⟩ := hx.value.type _ h
    obtain ⟨name, hname, rfl⟩ := List.mem_map.mp ht
    obtain ⟨w, hw, htyped⟩ := exists_of_mem_left hvs hname
    exact accepts_ofTypes_iff.mpr
      (.inr ⟨w, hw, accepts_of_typed plain ih htyped (hs name rfl) hx⟩)
  | nothing => trivial

/-- What satisfies a plain schema is accepted by its validator. -/
theorem accepts_of_satisfies {schema : Json} (plain : Plain schema) (hv : Yields schema v)
    (hx : M.Satisfies schema x) : Accepts M v (some x) := by
  induction schema using child_induction generalizing v x with
  | step schema ih =>
    have hn := plain.here
    have ih := fun c hc v hv x => ih c hc (v := v) (x := x) (plain.below hc) hv
    -- a schema that has a validator is an object or a boolean
    match schema, hn with
    | .object ms, hn =>
      obtain ⟨w, hw, rfl⟩ := yields_object hv
      rw [accepts_dressed_iff]
      obtain ⟨hnull, rfl⟩ | hx := Measures.satisfies_object_iff.mp hx
      · exact .inl ⟨hnull, rfl⟩
      · exact .inr (accepts_of_decision (hn ms rfl) ih hw hx)
    | .bool b, _ =>
      obtain ⟨path, hv⟩ := hv
      rw [Measures.satisfies_bool_iff] at hx
      subst hx
      cases hv
      trivial
    | .null, _ => cases isSchema_of_yields hv
    | .number _, _ => cases isSchema_of_yields hv
    | .string _, _ => cases isSchema_of_yields hv
    | .array _, _ => cases isSchema_of_yields hv

/-! ## Schemas -/

/-- Where a plain schema with proper numbers has a validator, its text can be read, and every
reading of it accepts what satisfies the schema. -/
theorem ofSchema_complete (M : Measures) {schema : Json} (hproper : schema.Proper)
    (plain : Plain schema) (hv : ofSchema schema = .ok v) :
    (∃ P, Zod.Reads M v.source P) ∧
      ∀ P, Zod.Reads M v.source P → ∀ x, M.Satisfies schema x → P (some x) := by
  obtain ⟨hread, hiff⟩ := Zod.reads_source_of_yields (M := M) hproper ⟨[], hv⟩
  refine ⟨hread, fun P hP x hx => ?_⟩
  exact (hiff P hP _).mpr (accepts_of_satisfies plain ⟨[], hv⟩ hx)

/-- An object with an id or nothing, of some unknown type, with a title. -/
def entitled : Json :=
  .object [
    ("title", .string "Entry"),
    ("type", .string "entry"),
    ("oneOf", .array [
      .object [("type", .string "object"), ("required", .strings ["id"])],
      .object [("const", .null), ("minimum", .string "?")]]),
    ("nullable", .bool true)]

/-- The schema is plain. -/
theorem plain_entitled : Plain entitled := by
  refine .intro (fun ms h => ?_) fun c hc => ?_
  · cases h
    exact ⟨by decide, nofun⟩
  cases hc with
  | member hkey h hj =>
    simp only [Json.combinators, List.mem_cons, List.not_mem_nil, or_false] at hkey
    obtain rfl | rfl | rfl := hkey
    · cases h
    · cases h
      simp only [List.mem_cons, List.not_mem_nil, or_false] at hj
      obtain rfl | rfl := hj
      · exact .leaf (fun ms h => by cases h; exact ⟨by decide, nofun⟩) (by decide)
      · exact .leaf (fun ms h => by cases h; exact ⟨by decide, nofun⟩) (by decide)
    · cases h
  | items h _ => cases h
  | item h _ => cases h
  | property h _ => cases h
  | additional h => cases h

/-- Its validator accepts every such entry. -/
theorem ofSchema_complete_entitled : ∃ v, ofSchema entitled = .ok v ∧ entitled.Proper ∧
    Plain entitled ∧ (∃ P, Zod.Reads .exact v.source P) ∧
      ∀ P, Zod.Reads .exact v.source P →
        ∀ x, Measures.exact.Satisfies entitled x → P (some x) := by
  have hproper : entitled.Proper := by
    simp [entitled, Json.Proper, Json.ProperMembers, Json.ProperItems, Json.strings]
  exact ⟨_, rfl, hproper, plain_entitled, ofSchema_complete .exact hproper plain_entitled rfl⟩

end Promptwright.Validator
