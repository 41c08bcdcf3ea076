import Promptwright.Proofs.Json.Told
import Promptwright.Proofs.Validator.Keywords

/-!
# Validators of proper schemas

The numbers of a validator come from the keywords of the schema, and its literals from `const` and
`enum`, where lists and objects are refused.  So a schema with proper numbers has a validator whose
numbers are proper and whose literals have no parts.

## Key results

- `proper_of_yields`: the validator of a proper schema
-/

namespace Promptwright.Validator

open Json.Members (lookup)

/-! ## Proper validators -/

/-- The number of a condition on texts is proper, if it has one. -/
def TextCheck.Proper : TextCheck → Prop
  | .minLength n => n.Proper
  | .maxLength n => n.Proper
  | _ => True

/-- The bound of a condition on numbers is proper. -/
def NumberCheck.Proper (c : NumberCheck) : Prop := c.bound.Proper

/-- The number of a condition on sizes is proper. -/
def SizeCheck.Proper : SizeCheck → Prop
  | .min n => n.Proper
  | .max n => n.Proper

mutual

/-- A validator whose numbers are proper and whose literals have no parts. -/
def Proper : Validator → Prop
  | .text checks => ∀ c ∈ checks, c.Proper
  | .number _ checks => ∀ c ∈ checks, c.Proper
  | .literal j => j.isComposite = false ∧ j.Proper
  | .union members => ProperAll members
  | .intersection left right => Proper left ∧ Proper right
  | .array item checks => Proper item ∧ ∀ c ∈ checks, c.Proper
  | .tuple items checks => ProperAll items ∧ ∀ c ∈ checks, c.Proper
  | .object properties rest => ProperProperties properties ∧ ProperRest rest
  | .nullable v => Proper v
  | .described v _ => Proper v
  | _ => True
  termination_by structural v => v

/-- All of some validators are proper. -/
def ProperAll : List Validator → Prop
  | [] => True
  | v :: vs => Proper v ∧ ProperAll vs
  termination_by structural vs => vs

/-- The validators of properties are proper. -/
def ProperProperties : List (Property Validator) → Prop
  | [] => True
  | ⟨_, _, v⟩ :: ps => Proper v ∧ ProperProperties ps
  termination_by structural ps => ps

/-- The validator of further members is proper, if there is one. -/
def ProperRest : Rest Validator → Prop
  | .each v => Proper v
  | _ => True
  termination_by structural r => r

end

/-- Validators one by one. -/
theorem properAll_iff {vs : List Validator} : ProperAll vs ↔ ∀ v ∈ vs, v.Proper := by
  induction vs with
  | nil => simp [ProperAll]
  | cons v vs ih => rw [ProperAll, ih, List.forall_mem_cons]

/-- Properties one by one. -/
theorem properProperties_iff {ps : List (Property Validator)} :
    ProperProperties ps ↔ ∀ p ∈ ps, p.value.Proper := by
  induction ps with
  | nil => simp [ProperProperties]
  | cons p ps ih => rw [ProperProperties, ih, List.forall_mem_cons]

/-- Several validators in one are proper. -/
theorem proper_foldl_intersection {v : Validator} {vs : List Validator} (hv : v.Proper)
    (hvs : ∀ w ∈ vs, w.Proper) : (vs.foldl .intersection v).Proper := by
  induction vs generalizing v with
  | nil => exact hv
  | cons w vs ih =>
    obtain ⟨hw, hvs⟩ := List.forall_mem_cons.mp hvs
    exact ih ⟨hv, hw⟩ hvs

/-- Any of some proper validators is proper. -/
theorem proper_union {vs : List Validator} (h : ∀ v ∈ vs, v.Proper) :
    (Children.union vs).Proper := by
  match vs with
  | [] => exact trivial
  | [v] => exact h v List.mem_cons_self
  | v :: w :: vs => exact properAll_iff.mpr h

/-- All of some proper validators are proper. -/
theorem proper_intersection {vs : List Validator} (h : ∀ v ∈ vs, v.Proper) :
    (Children.intersection vs).Proper := by
  cases vs with
  | nil => exact trivial
  | cons v vs =>
    obtain ⟨hv, hvs⟩ := List.forall_mem_cons.mp h
    exact proper_foldl_intersection hv hvs

/-- The same for types. -/
theorem proper_ofTypes {vs : List Validator} (h : ∀ v ∈ vs, v.Proper) : (ofTypes vs).Proper := by
  match vs with
  | [] => exact trivial
  | [v] => exact h v List.mem_cons_self
  | v :: w :: vs => exact properAll_iff.mpr h

/-- One of some values without parts. -/
theorem proper_ofValues {js : List Json} (hscalar : ∀ j ∈ js, j.isComposite = false)
    (hproper : ∀ j ∈ js, j.Proper) : (ofValues js).Proper := by
  match js with
  | [] => exact trivial
  | [j] => exact ⟨hscalar j List.mem_cons_self, hproper j List.mem_cons_self⟩
  | j :: k :: js =>
    rw [ofValues]
    split
    · exact trivial
    · refine properAll_iff.mpr (List.forall_mem_map.mpr fun j hj => ?_)
      exact ⟨hscalar j hj, hproper j hj⟩
    · simp
    · simp

/-! ## The numbers of keywords -/

section Checks

variable {path : SchemaPath} {ms : Json.Members}

/-- The value of a keyword is proper. -/
theorem proper_of_lookup (h : (Json.object ms).Proper) {key : String} {j : Json}
    (hj : lookup ms key = some j) : j.Proper :=
  Json.properMembers_iff.mp h _ (Json.Members.mem_of_lookup hj)

/-- The items in the value of a keyword are proper. -/
theorem proper_of_mem_lookup (h : (Json.object ms).Proper) {key : String} {js : List Json}
    (hjs : lookup ms key = some (.array js)) : ∀ j ∈ js, j.Proper :=
  Json.properItems_iff.mp (proper_of_lookup h hjs)

/-- The number of a keyword is proper. -/
theorem proper_of_number? (h : (Json.object ms).Proper) {keyword : String}
    {o : Option Json.Number} (ho : number? path ms keyword = .ok o) : ∀ n ∈ o, n.Proper :=
  fun n hn => proper_of_lookup h ((number?_eq_ok ho n).mp hn)

/-- The conditions on a text are proper. -/
theorem proper_textChecks (h : (Json.object ms).Proper) {cs : List TextCheck}
    (hcs : textChecks path ms = .ok cs) : ∀ c ∈ cs, c.Proper := by
  obtain ⟨min, hmin, hcs⟩ := bind_eq_ok hcs
  obtain ⟨max, hmax, hcs⟩ := bind_eq_ok hcs
  obtain ⟨pattern, hpattern, hcs⟩ := bind_eq_ok hcs
  cases hcs
  -- patterns and formats have no numbers
  have hp : ∀ c ∈ pattern, c.Proper := by
    rw [patternOf] at hpattern
    split at hpattern
    · cases hpattern
      exact List.forall_mem_nil _
    · cases hpattern
      exact List.forall_mem_singleton.mpr trivial
    · cases hpattern
  have hf : ∀ c ∈ formatOf ms, c.Proper := by
    rw [formatOf]
    split
    all_goals first | exact List.forall_mem_singleton.mpr trivial | exact List.forall_mem_nil _
  simp only [List.forall_mem_append, forall_toList_iff]
  exact ⟨⟨⟨proper_of_number? h hmin, proper_of_number? h hmax⟩, hp⟩, hf⟩

/-- The condition of a keyword on a number is proper. -/
theorem proper_numberCheck (h : (Json.object ms).Proper) {k : String × Relation}
    {cs : List NumberCheck} (hcs : numberCheck path ms k = .ok cs) : ∀ c ∈ cs, c.Proper := by
  obtain ⟨keyword, relation⟩ := k
  rw [numberCheck] at hcs
  split at hcs
  · cases hcs
    exact List.forall_mem_nil _
  · obtain ⟨o, ho, hcs⟩ := bind_eq_ok hcs
    cases hcs
    exact forall_toList_iff.mpr (proper_of_number? h ho)

/-- The conditions on a number are proper. -/
theorem proper_numberChecks (h : (Json.object ms).Proper) {cs : List NumberCheck}
    (hcs : numberChecks path ms = .ok cs) : ∀ c ∈ cs, c.Proper := by
  obtain ⟨css, hcss, hcs⟩ := bind_eq_ok hcs
  cases hcs
  intro c hc
  obtain ⟨cs, hmem, hc⟩ := List.mem_flatten.mp hc
  obtain ⟨k, -, hk⟩ := exists_of_mem_right (mapM_eq_ok hcss) hmem
  exact proper_numberCheck h hk c hc

/-- The conditions on the number of items are proper. -/
theorem proper_sizeChecks (h : (Json.object ms).Proper) {cs : List SizeCheck}
    (hcs : sizeChecks path ms = .ok cs) : ∀ c ∈ cs, c.Proper := by
  obtain ⟨min, hmin, hcs⟩ := bind_eq_ok hcs
  obtain ⟨max, hmax, hcs⟩ := bind_eq_ok hcs
  cases hcs
  simp only [List.forall_mem_append, forall_toList_iff]
  exact ⟨proper_of_number? h hmin, proper_of_number? h hmax⟩

end Checks

/-! ## Schemas -/

/-- A schema below a proper one is proper. -/
theorem proper_of_child {c s : Json} (hs : s.Proper) (hc : Json.Child c s) : c.Proper := by
  cases hc with
  | member _ h hj => exact proper_of_mem_lookup hs h _ hj
  | items h _ => exact proper_of_lookup hs h
  | item h hj => exact proper_of_mem_lookup hs h _ hj
  | property h hp => exact Json.properMembers_iff.mp (proper_of_lookup hs h) _ hp
  | additional h => exact proper_of_lookup hs h

section Nodes

variable {ms : Json.Members}

/-- The validator of a type is proper if those of the schemas below are. -/
theorem proper_of_typed (h : (Json.object ms).Proper)
    (ih : ∀ c, Json.Child c (.object ms) → ∀ v, Yields c v → v.Proper) {type : String}
    {v : Validator} (hv : Typed ms type v) : v.Proper := by
  cases hv with
  | text hcs => exact proper_textChecks h hcs
  | number hcs => exact proper_numberChecks h hcs
  | integer hcs => exact proper_numberChecks h hcs
  | boolean => exact trivial
  | null => exact trivial
  | list _ hcs => exact ⟨trivial, proper_sizeChecks h hcs⟩
  | each hi hj hv hcs => exact ⟨ih _ (.items hi hj) _ hv, proper_sizeChecks h hcs⟩
  | inOrder hi hvs hcs =>
    refine ⟨properAll_iff.mpr fun v hv => ?_, proper_sizeChecks h hcs⟩
    obtain ⟨j, hj, hyields⟩ := exists_of_mem_right hvs hv
    exact ih j (.item hi hj) v hyields
  | object _ _ hq hr =>
    refine ⟨properProperties_iff.mpr (List.forall_mem_map.mpr fun q hq' => ?_), ?_⟩
    · obtain ⟨p, hp, -, hyields⟩ := exists_of_mem_right hq hq'
      exact ih p.2 (.of_declared hp) q.2 hyields
    · cases hr with
      | each h hv => exact ih _ (.additional h) _ hv
      | nothing _ => exact trivial
      | free _ _ => exact trivial
  | unknown _ => exact trivial

/-- What decided about a node is proper if the validators of the schemas below are. -/
theorem proper_of_decision (h : (Json.object ms).Proper)
    (ih : ∀ c, Json.Child c (.object ms) → ∀ v, Yields c v → v.Proper) {d : Decider}
    {v : Validator} (hv : Decision ms d v) : v.Proper := by
  have hmembers : ∀ {key js vs}, key ∈ Json.combinators → lookup ms key = some (.array js) →
      List.Forall₂ Yields js vs → ∀ v ∈ vs, v.Proper := by
    intro key js vs hkey hjs hvs v hv
    obtain ⟨j, hj, hyields⟩ := exists_of_mem_right hvs hv
    exact ih j (.member hkey hjs hj) v hyields
  cases hv with
  | const hj hscalar => exact ⟨hscalar, proper_of_lookup h hj⟩
  | enum hjs hscalar => exact proper_ofValues hscalar (proper_of_mem_lookup h hjs)
  | anyOf hjs hvs => exact proper_union (hmembers (by decide) hjs hvs)
  | oneOf hjs hvs => exact proper_union (hmembers (by decide) hjs hvs)
  | allOf hjs hvs => exact proper_intersection (hmembers (by decide) hjs hvs)
  | type _ hv => exact proper_of_typed h ih hv
  | types _ hvs =>
    refine proper_ofTypes fun v hv => ?_
    obtain ⟨name, -, htyped⟩ := exists_of_mem_right hvs hv
    exact proper_of_typed h ih htyped
  | nothing => exact trivial

/-- What `nullable` and `description` add has no numbers. -/
theorem proper_dressed {v : Validator} (h : v.Proper) : (dressed ms v).Proper := by
  have hnullable : (if isTrue ms "nullable" then Validator.nullable v else v).Proper := by
    split
    · exact h
    · exact h
  rw [dressed]
  split
  · exact hnullable
  · exact hnullable

end Nodes

/-- The validator of a proper schema is proper. -/
theorem proper_of_yields {schema : Json} (h : schema.Proper) {v : Validator}
    (hv : Yields schema v) : v.Proper := by
  induction schema using Json.child_induction generalizing v with
  | step schema ih =>
    match schema with
    | .object ms =>
      obtain ⟨w, hw, rfl⟩ := yields_object hv
      exact proper_dressed (proper_of_decision h
        (fun c hc v hv => ih c hc (proper_of_child h hc) hv) hw)
    | .bool b =>
      obtain ⟨path, hv⟩ := hv
      cases b <;> cases hv <;> exact trivial
    | .null => cases isSchema_of_yields hv
    | .number _ => cases isSchema_of_yields hv
    | .string _ => cases isSchema_of_yields hv
    | .array _ => cases isSchema_of_yields hv

end Promptwright.Validator
