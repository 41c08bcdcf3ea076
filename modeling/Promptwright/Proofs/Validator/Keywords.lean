import Promptwright.Proofs.Validator.Meaning
import Promptwright.Proofs.Validator.Nodes

/-!
# Conditions and the keywords behind them

The conditions that are read from a node hold of a text, of a number or of a number of items
exactly if the keywords of the node make no other demand on it.

## Key results

- `forall_textChecks_iff`, `forall_numberChecks_iff`, `forall_sizeChecks_iff`: conditions and
  keywords say the same
- `accepts_ofValues_iff`: what one of some values is
- `accepts_ofTypes_iff`, `accepts_union_members_iff`, `accepts_intersection_members_iff`: the
  validators of lists
-/

namespace Promptwright.Validator

open Json.Members (lookup)

variable {M : Measures} {path : SchemaPath} {ms : Json.Members}

/-! ## Keywords with numbers -/

/-- Conditions that come from a number, if it is there. -/
theorem forall_toList_iff {α : Type} {o : Option Json.Number} {f : Json.Number → α}
    {P : α → Prop} : (∀ c ∈ (o.map f).toList, P c) ↔ ∀ n ∈ o, P (f n) := by
  cases o with
  | none => simp
  | some n => simp

/-- The conditions on a text are what its keywords demand, with a pattern and a format. -/
theorem forall_textChecks_iff {cs : List TextCheck} (h : textChecks path ms = .ok cs) (s : String) :
    (∀ c ∈ cs, c.Holds M s) ↔
      M.TextKeywords ms s ∧
        (∀ regex, lookup ms "pattern" = some (.string regex) → M.matchesPattern regex s) ∧
        ∀ c ∈ formatOf ms, c.Holds M s := by
  obtain ⟨min, hmin, h⟩ := bind_eq_ok h
  obtain ⟨max, hmax, h⟩ := bind_eq_ok h
  obtain ⟨pattern, hpattern, h⟩ := bind_eq_ok h
  cases h
  -- a pattern that is no text would have been an error
  have hp : (∀ c ∈ pattern, c.Holds M s) ↔
      ∀ regex, lookup ms "pattern" = some (.string regex) → M.matchesPattern regex s := by
    rw [patternOf] at hpattern
    split at hpattern
    next hj =>
      cases hpattern
      simp [hj]
    next regex hj =>
      cases hpattern
      simp [hj, TextCheck.Holds]
    next => cases hpattern
  simp only [List.forall_mem_append, forall_toList_iff, number?_eq_ok hmin, number?_eq_ok hmax, hp]
  constructor
  · rintro ⟨⟨⟨hmin, hmax⟩, hp⟩, hf⟩
    exact ⟨⟨hmin, hmax⟩, hp, hf⟩
  · rintro ⟨⟨hmin, hmax⟩, hp, hf⟩
    exact ⟨⟨⟨hmin, hmax⟩, hp⟩, hf⟩

/-- The condition of a keyword on a number. -/
theorem forall_numberCheck_iff {keyword : String} {relation : Relation} {cs : List NumberCheck}
    (h : numberCheck path ms (keyword, relation) = .ok cs) (n : Json.Number) :
    (∀ c ∈ cs, c.Holds M n) ↔
      ∀ b, lookup ms keyword = some (.number b) → relation.Holds M n b := by
  rw [numberCheck] at h
  split at h
  next b hb =>
    cases h
    simp [hb]
  next =>
    obtain ⟨o, ho, h⟩ := bind_eq_ok h
    cases h
    simp only [forall_toList_iff, number?_eq_ok ho]
    rfl

/-- The conditions of several keywords on a number. -/
theorem forall_numberCheck_flatten_iff {ks : List (String × Relation)}
    {css : List (List NumberCheck)}
    (h : List.Forall₂ (fun k cs => numberCheck path ms k = .ok cs) ks css) (n : Json.Number) :
    (∀ c ∈ css.flatten, c.Holds M n) ↔
      ∀ k ∈ ks, ∀ b, lookup ms k.1 = some (.number b) → k.2.Holds M n b := by
  induction h with
  | nil => simp
  | cons hk _ ih =>
    rw [List.flatten_cons, List.forall_mem_append, List.forall_mem_cons, ih,
      forall_numberCheck_iff hk]

/-- A lower bound, exclusive or not. -/
private theorem lower_holds_iff (exclusive : Bool) (n b : Json.Number) :
    (if exclusive then Relation.greater else .atLeast).Holds M n b ↔
      if exclusive then M.lt b n else M.le b n := by
  cases exclusive <;> exact Iff.rfl

/-- An upper bound, exclusive or not. -/
private theorem upper_holds_iff (exclusive : Bool) (n b : Json.Number) :
    (if exclusive then Relation.less else .atMost).Holds M n b ↔
      if exclusive then M.lt n b else M.le n b := by
  cases exclusive <;> exact Iff.rfl

/-- The conditions on a number are what its keywords demand. -/
theorem forall_numberChecks_iff {cs : List NumberCheck} (h : numberChecks path ms = .ok cs)
    (n : Json.Number) : (∀ c ∈ cs, c.Holds M n) ↔ M.NumberKeywords ms n := by
  obtain ⟨css, hcss, h⟩ := bind_eq_ok h
  cases h
  rw [forall_numberCheck_flatten_iff (mapM_eq_ok hcss), numberKeywords]
  simp only [List.forall_mem_cons, lower_holds_iff, upper_holds_iff]
  constructor
  · rintro ⟨minimum, exclusiveMinimum, maximum, exclusiveMaximum, multipleOf, -⟩
    exact ⟨minimum, exclusiveMinimum, maximum, exclusiveMaximum, multipleOf⟩
  · rintro ⟨minimum, exclusiveMinimum, maximum, exclusiveMaximum, multipleOf⟩
    exact ⟨minimum, exclusiveMinimum, maximum, exclusiveMaximum, multipleOf, nofun⟩

/-- The conditions on the number of items are what its keywords demand. -/
theorem forall_sizeChecks_iff {cs : List SizeCheck} (h : sizeChecks path ms = .ok cs)
    (size : Nat) : (∀ c ∈ cs, c.Holds M size) ↔ M.SizeKeywords ms size := by
  obtain ⟨min, hmin, h⟩ := bind_eq_ok h
  obtain ⟨max, hmax, h⟩ := bind_eq_ok h
  cases h
  simp only [List.forall_mem_append, forall_toList_iff, number?_eq_ok hmin, number?_eq_ok hmax]
  constructor
  · rintro ⟨hmin, hmax⟩
    exact ⟨hmin, hmax⟩
  · rintro ⟨hmin, hmax⟩
    exact ⟨hmin, hmax⟩

/-! ## Validators of lists -/

/-- Values that are all texts are the texts among them. -/
theorem eq_map_string_of_mapM {js : List Json} {ss : List String}
    (h : js.mapM Json.string? = some ss) : js = ss.map .string := by
  induction js generalizing ss with
  | nil =>
    cases h
    rfl
  | cons j js ih =>
    rw [List.mapM_cons] at h
    obtain ⟨s, hs, h⟩ := Option.bind_eq_some_iff.mp h
    obtain ⟨ts, hts, h⟩ := Option.bind_eq_some_iff.mp h
    cases h
    rw [ih hts]
    cases j with
    | string t =>
      cases hs
      rfl
    | _ => cases hs

/-- A text is equal to another value only if that is the same text. -/
theorem equal_string_iff {s : String} {y : Json} :
    M.Equal (.string s) y ↔ y = .string s := by
  cases y with
  | string t =>
    rw [Measures.Equal, Json.string.injEq]
    exact eq_comm
  | _ => simp [Measures.Equal]

/-- What is accepted for one of some values is equal to one of them. -/
theorem accepts_ofValues_iff {js : List Json} (hjs : ∀ j ∈ js, j.isComposite = false)
    {x : Option Json} : Accepts M (ofValues js) x ↔ ∃ y, x = some y ∧ ∃ j ∈ js, M.Equal j y := by
  cases js with
  | nil => simp [ofValues, Accepts]
  | cons j js =>
    cases js with
    | nil => simp [ofValues, Accepts, hjs j List.mem_cons_self]
    | cons j' js =>
      -- two values or more make a choice between texts, or a union if some value is no text
      rw [ofValues]
      · generalize j :: j' :: js = js at hjs
        cases hss : js.mapM Json.string? with
        | some ss =>
          rw [eq_map_string_of_mapM hss]
          simp [Accepts, equal_string_iff, and_comm]
        | none =>
          refine accepts_union_iff.trans ⟨?_, ?_⟩
          · rintro ⟨v, hv, hx⟩
            obtain ⟨j, hj, rfl⟩ := List.mem_map.mp hv
            obtain ⟨-, y, rfl, hy⟩ := hx
            exact ⟨y, rfl, j, hj, hy⟩
          · rintro ⟨y, rfl, j, hj, hy⟩
            exact ⟨.literal j, List.mem_map_of_mem hj, hjs j hj, y, rfl, hy⟩
      · simp
      · simp

/-- What is accepted for the types of a node. -/
theorem accepts_ofTypes_iff {vs : List Validator} {x : Option Json} :
    Accepts M (ofTypes vs) x ↔ vs = [] ∨ ∃ v ∈ vs, Accepts M v x := by
  match vs with
  | [] => simp [ofTypes, Accepts]
  | [v] => simp [ofTypes]
  | v :: w :: vs => simp [ofTypes, accepts_union_iff]

/-- What is accepted for the members of a union. -/
theorem accepts_union_members_iff {vs : List Validator} {x : Option Json} :
    Accepts M (Children.union vs) x ↔ vs = [] ∨ ∃ v ∈ vs, Accepts M v x := by
  match vs with
  | [] => simp [Children.union, Accepts]
  | [v] => simp [Children.union]
  | v :: w :: vs => simp [Children.union, accepts_union_iff]

/-- What is accepted for the members of an intersection. -/
theorem accepts_intersection_members_iff {vs : List Validator} {x : Option Json} :
    Accepts M (Children.intersection vs) x ↔ ∀ v ∈ vs, Accepts M v x := by
  match vs with
  | [] => simp [Children.intersection, Accepts]
  | v :: vs => rw [Children.intersection, accepts_foldl_intersection_iff]

/-- What `nullable` and `description` add. -/
theorem accepts_dressed_iff {v : Validator} {x : Option Json} :
    Accepts M (dressed ms v) x ↔
      (isTrue ms "nullable" = true ∧ x = some .null) ∨ Accepts M v x := by
  rw [dressed]
  split <;> split <;> simp_all [Accepts]

end Promptwright.Validator
