import Promptwright.Proofs.Validator.Required

/-!
# A type beside a combinator

Of the keywords of a node one decides, and `type` is the last that does.  Beside `anyOf`, `oneOf` or
`allOf` it is not read at all, and neither are the keywords that go with it: the node accepts what
its members accept.  So the type, the properties and the required names of such a node are enforced
as far as the members see to it, and no further.

## Key results

- `ofSchema_congr`: a node that is not decided by its type is the same with any other type
- `beside_of_decision`: what such a node accepts
- `members_decide`: both, with what the members may see to
- `accepted_beside_type`: a value that is accepted and has not the type of the node
-/

namespace Promptwright.Validator

open Json.Members (lookup)

variable {M : Measures} {ms ms' : Json.Members} {v : Validator} {x : Json}

/-! ## Keywords that are read -/

/-- The keywords that are read in a node that its type does not decide about. -/
def decidingKeywords : List String :=
  ["const", "enum", "anyOf", "oneOf", "allOf", "nullable", "description"]

/-- Whether a node is decided by values or by other schemas. -/
def Decider.isBeforeType : Decider → Bool
  | .type => false
  | .nothing => false
  | _ => true

/-- A node with a combinator is not decided by its type. -/
theorem isBeforeType_of_combinator {key : String} (hkey : key ∈ Json.combinators)
    (h : (lookup ms key).isSome = true) : (decider ms).isBeforeType = true := by
  simp only [Json.combinators, List.mem_cons, List.not_mem_nil, or_false] at hkey
  rw [decider]
  obtain rfl | rfl | rfl := hkey
  all_goals
    rw [h]
    repeat' split
    all_goals first | rfl | contradiction

/-- The validator that decides is the same for nodes that have the same deciding keywords. -/
theorem base_congr (path : SchemaPath) (h : ∀ key ∈ decidingKeywords, lookup ms' key = lookup ms key)
    (hd : (decider ms).isBeforeType = true) :
    (childrenOf path ms').base path ms' = (childrenOf path ms).base path ms := by
  have hconst := h "const" (by decide)
  have henum := h "enum" (by decide)
  have hanyOf := h "anyOf" (by decide)
  have honeOf := h "oneOf" (by decide)
  have hallOf := h "allOf" (by decide)
  simp only [Children.base, childrenOf, membersAt_eq, hconst, henum, hanyOf, honeOf, hallOf]
  rw [decider] at hd
  -- the first keyword that is there decides on both sides
  cases hc : lookup ms "const" with
  | some _ => rfl
  | none =>
    cases he : lookup ms "enum" with
    | some _ => rfl
    | none =>
      cases ha : lookup ms "anyOf" with
      | some _ => rfl
      | none =>
        cases ho : lookup ms "oneOf" with
        | some _ => rfl
        | none =>
          cases hl : lookup ms "allOf" with
          | some _ => rfl
          | none =>
            rw [hc, he, ha, ho, hl] at hd
            cases ht : lookup ms "type" with
            | some _ => rw [ht] at hd; cases hd
            | none => rw [ht] at hd; cases hd

/-- A node that its type does not decide about has the same validator as any other node with the
same deciding keywords, whatever its type, properties and required names. -/
theorem ofSchema_congr (h : ∀ key ∈ decidingKeywords, lookup ms' key = lookup ms key)
    (hd : (decider ms).isBeforeType = true) :
    ofSchema (.object ms') = ofSchema (.object ms) := by
  have hdressed : dressed ms' = dressed ms := by
    funext v
    rw [dressed, dressed, isTrue, isTrue, h "nullable" (by decide), h "description" (by decide)]
  rw [ofSchema, ofSchema, ofJson_object, ofJson_object, base_congr [] h hd, hdressed]

/-! ## What is accepted -/

/-- What a node accepts that its type does not decide about: its value, one of its values, what the
validator of some member accepts, or what those of all members accept. -/
inductive Beside (M : Measures) (ms : Json.Members) : (Json → Prop) → Prop
  | const {j : Json} (hd : decider ms = .const) (h : lookup ms "const" = some j) :
      Beside M ms fun x => M.Equal j x
  | enum {js : List Json} (hd : decider ms = .enum) (h : lookup ms "enum" = some (.array js)) :
      Beside M ms fun x => ∃ j ∈ js, M.Equal j x
  | someMember {key : String} {js : List Json} {vs : List Validator}
      (hd : (decider ms).unionKeyword? = some key) (h : lookup ms key = some (.array js))
      (hvs : List.Forall₂ Yields js vs) :
      Beside M ms fun x => js = [] ∨ ∃ v ∈ vs, Accepts M v (some x)
  | allMembers {js : List Json} {vs : List Validator} (hd : decider ms = .allOf)
      (h : lookup ms "allOf" = some (.array js)) (hvs : List.Forall₂ Yields js vs) :
      Beside M ms fun x => ∀ v ∈ vs, Accepts M v (some x)

/-- Lists side by side are empty together. -/
private theorem eq_nil_iff_of_forall₂ {js : List Json} {vs : List Validator}
    (h : List.Forall₂ Yields js vs) : vs = [] ↔ js = [] := by
  cases h <;> simp

/-- What decided about a node before its type accepts just that. -/
theorem beside_of_decision (h : Decision ms (decider ms) v)
    (hd : (decider ms).isBeforeType = true) :
    ∃ Q, Beside M ms Q ∧ ∀ x, Accepts M v (some x) ↔ Q x := by
  -- by the keyword that decided, which is not the type
  generalize hdecider : decider ms = d at h hd
  cases h with
  | @const j h hscalar =>
    refine ⟨_, .const hdecider h, fun x => ⟨?_, fun hx => ⟨hscalar, x, rfl, hx⟩⟩⟩
    rintro ⟨-, y, hy, hx⟩
    cases hy
    exact hx
  | enum h hscalar =>
    refine ⟨_, .enum hdecider h, fun x => (accepts_ofValues_iff hscalar).trans ⟨?_, ?_⟩⟩
    · rintro ⟨y, hy, hx⟩
      cases hy
      exact hx
    · exact fun hx => ⟨x, rfl, hx⟩
  | anyOf h hvs =>
    refine ⟨_, .someMember (by rw [hdecider]; rfl) h hvs, fun x => ?_⟩
    rw [accepts_union_members_iff, eq_nil_iff_of_forall₂ hvs]
  | oneOf h hvs =>
    refine ⟨_, .someMember (by rw [hdecider]; rfl) h hvs, fun x => ?_⟩
    rw [accepts_union_members_iff, eq_nil_iff_of_forall₂ hvs]
  | allOf h hvs => exact ⟨_, .allMembers hdecider h hvs, fun x => accepts_intersection_members_iff⟩
  | type _ _ => cases hd
  | types _ _ => cases hd
  | nothing => cases hd

/-! ## What members see to -/

/-- The validators of a schema accept values of a kind only. -/
def Ensures (M : Measures) (schema : Json) (R : Json → Prop) : Prop :=
  ∀ v, Yields schema v → ∀ x, Accepts M v (some x) → R x

/-- The members of a combinator that decides see to it that values are of a kind: there are some
and each one does, where one member will do, and some member does, where all are asked. -/
inductive MembersEnsure (M : Measures) (ms : Json.Members) (R : Json → Prop) : Prop
  | each {key : String} {js : List Json} (hd : (decider ms).unionKeyword? = some key)
      (h : lookup ms key = some (.array js)) (hne : js ≠ []) (hR : ∀ j ∈ js, Ensures M j R)
  | some {js : List Json} {j : Json} (hd : decider ms = .allOf)
      (h : lookup ms "allOf" = some (.array js)) (hj : j ∈ js) (hR : Ensures M j R)

/-- What the members see to holds of all that is accepted. -/
theorem of_membersEnsure {Q R : Json → Prop} (hQ : Beside M ms Q) (hR : MembersEnsure M ms R)
    (hx : Q x) : R x := by
  -- one keyword decides on both sides, so every other pair of cases contradicts itself
  cases hR with
  | each hd h hne hR =>
    cases hQ with
    | someMember hd' h' hvs =>
      obtain rfl := Option.some.inj (hd.symm.trans hd')
      obtain rfl := Json.array.inj (Option.some.inj (h.symm.trans h'))
      obtain ⟨v, hv, hx⟩ := hx.resolve_left hne
      obtain ⟨j, hj, hyields⟩ := exists_of_mem_right hvs hv
      exact hR j hj v hyields x hx
    | const hd' _ => rw [hd'] at hd; cases hd
    | enum hd' _ => rw [hd'] at hd; cases hd
    | allMembers hd' _ _ => rw [hd'] at hd; cases hd
  | some hd h hj hR =>
    cases hQ with
    | allMembers hd' h' hvs =>
      obtain rfl := Json.array.inj (Option.some.inj (h.symm.trans h'))
      obtain ⟨v, hv, hyields⟩ := exists_of_mem_left hvs hj
      exact hR v hyields x (hx v hv)
    | const hd' _ => rw [hd'] at hd; cases hd
    | enum hd' _ => rw [hd'] at hd; cases hd
    | someMember hd' _ _ => rw [hd] at hd'; cases hd'

/-- What the type of a node demands, and of an object its properties and required names. -/
structure OwnDemands (M : Measures) (ms : Json.Members) (type : String) (x : Json) : Prop where
  type : M.HasType type x
  properties : ∀ xs, x = .object xs → ∀ p ∈ Json.declared ms, ∀ y, lookup xs p.1 = some y →
    M.Satisfies p.2 y
  required : ∀ xs, x = .object xs → Measures.RequiredKeyword ms xs

/-- Beside a combinator, the type of a node is not read: the node has the same validator with any
other type, properties and required names.  Apart from null, where `nullable` allows it, every
reading of its text accepts what the keyword that decides accepts, and so only what the type demands
if the members see to that. -/
theorem members_decide (M : Measures) (hproper : (Json.object ms).Proper) {key : String}
    (hkey : key ∈ Json.combinators) (h : (lookup ms key).isSome = true)
    (hv : ofSchema (.object ms) = .ok v) :
    (∀ ms', (∀ key ∈ decidingKeywords, lookup ms' key = lookup ms key) →
      ofSchema (.object ms') = .ok v) ∧
    ∃ Q, Beside M ms Q ∧ (∃ P, Zod.Reads M v.source P) ∧ ∀ P, Zod.Reads M v.source P →
      (∀ x, P (some x) ↔ (isTrue ms "nullable" = true ∧ x = .null) ∨ Q x) ∧
      ∀ type, lookup ms "type" = some (.string type) → MembersEnsure M ms (OwnDemands M ms type) →
        ∀ x, P (some x) → (isTrue ms "nullable" = true ∧ x = .null) ∨ OwnDemands M ms type x := by
  have hd := isBeforeType_of_combinator hkey h
  refine ⟨fun ms' hsame => (ofSchema_congr hsame hd).trans hv, ?_⟩
  -- the text accepts what the validator does, which is what the keyword accepts, and null perhaps
  obtain ⟨hread, hiff⟩ := Zod.reads_source_of_yields (M := M) hproper ⟨[], hv⟩
  obtain ⟨w, hw, rfl⟩ := yields_object ⟨[], hv⟩
  obtain ⟨Q, hQ, hQx⟩ := beside_of_decision (M := M) hw hd
  refine ⟨Q, hQ, hread, fun P hP => ?_⟩
  have hPx : ∀ x, P (some x) ↔ (isTrue ms "nullable" = true ∧ x = .null) ∨ Q x := by
    intro x
    rw [hiff P hP, accepts_dressed_iff, hQx, Option.some.injEq]
  refine ⟨hPx, fun type _ hR x hx => ?_⟩
  exact ((hPx x).mp hx).imp_right (of_membersEnsure hQ hR)

/-- An object with an id, and beside it a choice between texts and numbers. -/
def identified : Json.Members := [
  ("type", .string "object"),
  ("properties", .object [("id", .object [("type", .string "string")])]),
  ("required", .strings ["id"]),
  ("anyOf", .array [.object [("type", .string "string")], .object [("type", .string "number")]])]

/-- The schema has no numbers at all. -/
theorem proper_identified : (Json.object identified).Proper := by
  simp [identified, Json.Proper, Json.ProperMembers, Json.ProperItems, Json.strings]

/-- A text is accepted in every reading, although the type is object. -/
theorem accepted_beside_type :
    lookup identified "type" = some (.string "object") ∧
      ¬ Measures.exact.HasType "object" (.string "Ada") ∧
      ∃ v, ofSchema (.object identified) = .ok v ∧ (∃ P, Zod.Reads .exact v.source P) ∧
        ∀ P, Zod.Reads .exact v.source P → P (some (.string "Ada")) := by
  obtain ⟨hread, hiff⟩ := Zod.reads_source_of_yields (M := .exact) proper_identified
    (v := .union [.text [], .number false []]) ⟨[], rfl⟩
  refine ⟨rfl, ?_, _, rfl, hread, fun P hP => (hiff P hP _).mpr (accepts_union_iff.mpr ?_)⟩
  · rintro ⟨_, h⟩
    cases h
  · exact ⟨.text [], List.mem_cons_self, "Ada", rfl, nofun⟩

/-- The choice decides, and the node is the same without its type, properties and required names. -/
theorem members_decide_identified :
    (Json.object identified).Proper ∧ "anyOf" ∈ Json.combinators ∧
      (lookup identified "anyOf").isSome = true ∧
      ∃ v, ofSchema (.object identified) = .ok v ∧
        (∀ ms', (∀ key ∈ decidingKeywords, lookup ms' key = lookup identified key) →
          ofSchema (.object ms') = .ok v) ∧
        ∃ Q, Beside .exact identified Q ∧ (∃ P, Zod.Reads .exact v.source P) ∧
          ∀ P, Zod.Reads .exact v.source P →
          (∀ x, P (some x) ↔ (isTrue identified "nullable" = true ∧ x = .null) ∨ Q x) ∧
          ∀ type, lookup identified "type" = some (.string type) →
            MembersEnsure .exact identified (OwnDemands .exact identified type) →
            ∀ x, P (some x) → (isTrue identified "nullable" = true ∧ x = .null) ∨
              OwnDemands .exact identified type x :=
  have hkey : "anyOf" ∈ Json.combinators := by decide
  ⟨proper_identified, hkey, rfl, _, rfl, members_decide .exact proper_identified hkey rfl rfl⟩

end Promptwright.Validator
