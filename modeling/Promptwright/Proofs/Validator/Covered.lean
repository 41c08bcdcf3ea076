import Promptwright.Proofs.Validator.Nodes

/-!
# Schemas that are covered

In a covered schema every node, at any depth, says one thing only: it is one value, one of some
values, any of some schemas, all of some schemas, or a value of a known type with the keywords of
that type.  Every such schema has a validator.

## Key results

- `Decision.eq_literal`, `Decision.eq_ofValues`, `Decision.eq_union`, `Decision.eq_intersection`,
  `Decision.eq_ofTypes`: what decides about a covered node
- `exists_ofSchema_of_covered`: covered schemas have validators
-/

namespace Promptwright.Validator

open Json (Below Everywhere declared propertyNames child_induction)
open Json.Members (Only lookup)

/-! ## The class -/

/-- The keywords that may stand in every node. -/
def annotations : List String := ["nullable", "description"]

/-- The keywords whose arguments are numbers. -/
def numeric : List String :=
  ["minLength", "maxLength", "minimum", "maximum", "multipleOf", "minItems", "maxItems"]

/-- The keywords whose arguments are numbers, or booleans beside another bound. -/
def exclusive : List String := ["exclusiveMinimum", "exclusiveMaximum"]

/-- The keywords that may stand next to `type`. -/
def typeKeywords : List String :=
  "type" :: numeric ++ exclusive ++ ["items", "properties", "required", "additionalProperties"]

/-- A node names a known type, or several. -/
inductive NamesTypes (ms : Json.Members) : List String → Prop
  | one {name : String} (h : lookup ms "type" = some (.string name)) (hk : name ∈ kinds) :
      NamesTypes ms [name]
  | several {names : List String} (h : lookup ms "type" = some (.array (names.map .string)))
      (hn : names ≠ []) (hk : ∀ name ∈ names, name ∈ kinds) : NamesTypes ms names

/-- The shapes of the arguments next to `type`. -/
structure TypeShape (ms : Json.Members) : Prop where
  types : ∃ names, NamesTypes ms names
  numeric : ∀ key ∈ numeric, ∀ j, lookup ms key = some j → ∃ n, j = .number n
  exclusive : ∀ key ∈ exclusive, ∀ j, lookup ms key = some j →
    (∃ n, j = .number n) ∨ ∃ b, j = .bool b
  items : ∀ js, lookup ms "items" ≠ some (.array js)
  properties : ∀ j, lookup ms "properties" = some j → ∃ ps, j = .object ps
  required : ∀ j, lookup ms "required" = some j →
    ∃ names : List String, j = .array (names.map .string) ∧ ∀ name ∈ names, name ∈ propertyNames ms

/-- The nodes of covered schemas. -/
inductive CoveredNode : Json → Prop
  | const {ms : Json.Members} {j : Json} (keys : Only ("const" :: annotations) ms)
      (h : lookup ms "const" = some j) (hj : j.isComposite = false) : CoveredNode (.object ms)
  | enum {ms : Json.Members} {js : List Json} (keys : Only ("enum" :: annotations) ms)
      (h : lookup ms "enum" = some (.array js)) (hjs : ∀ j ∈ js, j.isComposite = false) :
      CoveredNode (.object ms)
  | anyOf {ms : Json.Members} {js : List Json} (keys : Only ("anyOf" :: annotations) ms)
      (h : lookup ms "anyOf" = some (.array js)) (hjs : js ≠ []) : CoveredNode (.object ms)
  | allOf {ms : Json.Members} {js : List Json} (keys : Only ("allOf" :: annotations) ms)
      (h : lookup ms "allOf" = some (.array js)) (hjs : js ≠ []) : CoveredNode (.object ms)
  | typed {ms : Json.Members} (keys : Only (typeKeywords ++ annotations) ms)
      (shape : TypeShape ms) : CoveredNode (.object ms)

/-- Every node at any depth is covered. -/
def Covered (schema : Json) : Prop := Everywhere CoveredNode schema

/-! ## Types -/

variable {ms : Json.Members} {v : Validator}

/-- A node that names types has a keyword that names them. -/
theorem NamesTypes.isSome {names : List String} (types : NamesTypes ms names) :
    (lookup ms "type").isSome := by
  cases types with
  | one h _ => rw [h]; rfl
  | several h _ _ => rw [h]; rfl

/-- All the types that a node names are known. -/
theorem NamesTypes.known {names : List String} (types : NamesTypes ms names) :
    ∀ name ∈ names, name ∈ kinds := by
  cases types with
  | one _ hk => exact List.forall_mem_singleton.mpr hk
  | several _ _ hk => exact hk

/-- A node names some type. -/
theorem NamesTypes.ne_nil {names : List String} (types : NamesTypes ms names) : names ≠ [] := by
  cases types with
  | one _ _ => exact List.cons_ne_nil _ _
  | several _ hn _ => exact hn

/-! ## What decides -/

/-- With `const`, nothing else decides. -/
theorem decider_eq_const {j : Json} (hj : lookup ms "const" = some j) : decider ms = .const := by
  simp [decider, hj]

/-- Only `enum` decides. -/
theorem decider_eq_enum (keys : Only ("enum" :: annotations) ms) {j : Json}
    (hj : lookup ms "enum" = some j) : decider ms = .enum := by
  simp [decider, hj, keys.lookup_eq_none "const" (by decide)]

/-- Only `anyOf` decides. -/
theorem decider_eq_anyOf (keys : Only ("anyOf" :: annotations) ms) {j : Json}
    (hj : lookup ms "anyOf" = some j) : decider ms = .anyOf := by
  simp [decider, hj, keys.lookup_eq_none "const" (by decide),
    keys.lookup_eq_none "enum" (by decide)]

/-- Only `allOf` decides. -/
theorem decider_eq_allOf (keys : Only ("allOf" :: annotations) ms) {j : Json}
    (hj : lookup ms "allOf" = some j) : decider ms = .allOf := by
  simp [decider, hj, keys.lookup_eq_none "const" (by decide),
    keys.lookup_eq_none "enum" (by decide), keys.lookup_eq_none "anyOf" (by decide),
    keys.lookup_eq_none "oneOf" (by decide)]

/-- Only `type` decides. -/
theorem decider_eq_type (keys : Only (typeKeywords ++ annotations) ms) {names : List String}
    (types : NamesTypes ms names) : decider ms = .type := by
  simp [decider, types.isSome, keys.lookup_eq_none "const" (by decide),
    keys.lookup_eq_none "enum" (by decide), keys.lookup_eq_none "anyOf" (by decide),
    keys.lookup_eq_none "oneOf" (by decide), keys.lookup_eq_none "allOf" (by decide)]

/-- What `const` decides. -/
theorem Decision.eq_literal (h : Decision ms (decider ms) v) {j : Json}
    (hj : lookup ms "const" = some j) : v = .literal j := by
  rw [decider_eq_const hj] at h
  cases h with
  | const h _ => rw [Option.some.inj (h.symm.trans hj)]

/-- What `enum` decides. -/
theorem Decision.eq_ofValues (h : Decision ms (decider ms) v)
    (keys : Only ("enum" :: annotations) ms) {js : List Json}
    (hjs : lookup ms "enum" = some (.array js)) : v = ofValues js := by
  rw [decider_eq_enum keys hjs] at h
  cases h with
  | enum h _ => rw [Json.array.inj (Option.some.inj (h.symm.trans hjs))]

/-- What `anyOf` decides. -/
theorem Decision.eq_union (h : Decision ms (decider ms) v) (keys : Only ("anyOf" :: annotations) ms)
    {js : List Json} (hjs : lookup ms "anyOf" = some (.array js)) :
    ∃ vs, List.Forall₂ Yields js vs ∧ v = Children.union vs := by
  rw [decider_eq_anyOf keys hjs] at h
  cases h with
  | anyOf h hvs =>
    rw [Json.array.inj (Option.some.inj (h.symm.trans hjs))] at hvs
    exact ⟨_, hvs, rfl⟩

/-- What `allOf` decides. -/
theorem Decision.eq_intersection (h : Decision ms (decider ms) v)
    (keys : Only ("allOf" :: annotations) ms) {js : List Json}
    (hjs : lookup ms "allOf" = some (.array js)) :
    ∃ vs, List.Forall₂ Yields js vs ∧ v = Children.intersection vs := by
  rw [decider_eq_allOf keys hjs] at h
  cases h with
  | allOf h hvs =>
    rw [Json.array.inj (Option.some.inj (h.symm.trans hjs))] at hvs
    exact ⟨_, hvs, rfl⟩

/-- What `type` decides. -/
theorem Decision.eq_ofTypes (h : Decision ms (decider ms) v)
    (keys : Only (typeKeywords ++ annotations) ms) {names : List String}
    (types : NamesTypes ms names) : ∃ vs, List.Forall₂ (Typed ms) names vs ∧ v = ofTypes vs := by
  rw [decider_eq_type keys types] at h
  -- `type` is one name or a list of names for both, which leaves two of the four pairs
  cases types with
  | one h' _ =>
    cases h with
    | type h hv =>
      rw [Json.string.inj (Option.some.inj (h.symm.trans h'))] at hv
      exact ⟨[v], .cons hv .nil, rfl⟩
    | types h _ => cases h.symm.trans h'
  | several h' _ _ =>
    cases h with
    | type h _ => cases h.symm.trans h'
    | types h hvs =>
      have heq := Json.array.inj (Option.some.inj (h.symm.trans h'))
      rw [(List.map_inj_right fun _ _ => Json.string.inj).mp heq] at hvs
      exact ⟨_, hvs, rfl⟩

/-! ## There are validators -/

/-- A schema has a validator, wherever it is. -/
def Readable (schema : Json) : Prop := ∀ path, ∃ v, ofJson path schema = .ok v

variable (path : SchemaPath)

/-- Schemas that have validators have them one by one. -/
theorem exists_ofList_eq_ok (n : Nat) {js : List Json}
    (h : ∀ j ∈ js, Readable j) : ∃ vs, ofList path n js = .ok vs := by
  induction js generalizing n with
  | nil => exact ⟨[], rfl⟩
  | cons j js ih =>
    obtain ⟨v, hv⟩ := h j List.mem_cons_self (path ++ [.index n])
    obtain ⟨vs, hvs⟩ := ih (n + 1) fun j hj => h j (List.mem_cons_of_mem _ hj)
    exact ⟨v :: vs, by rw [ofList, hv, hvs]; rfl⟩

/-- Named schemas that have validators have them one by one. -/
theorem exists_ofMembers_eq_ok {ps : Json.Members}
    (h : ∀ p ∈ ps, Readable p.2) : ∃ qs, ofMembers path ps = .ok qs := by
  induction ps with
  | nil => exact ⟨[], rfl⟩
  | cons p ps ih =>
    obtain ⟨name, j⟩ := p
    obtain ⟨v, hv⟩ := h (name, j) List.mem_cons_self (path ++ [.key name])
    obtain ⟨qs, hqs⟩ := ih fun p hp => h p (List.mem_cons_of_mem _ hp)
    exact ⟨(name, v) :: qs, by rw [ofMembers, hv, hqs]; rfl⟩

/-- A keyword with a number, or not there, can be read. -/
theorem exists_number?_eq_ok {keyword : String}
    (h : ∀ j, lookup ms keyword = some j → ∃ n, j = .number n) :
    ∃ o, number? path ms keyword = .ok o := by
  rw [number?]
  cases hj : lookup ms keyword with
  | none => exact ⟨none, rfl⟩
  | some j =>
    obtain ⟨n, rfl⟩ := h j hj
    exact ⟨some n, rfl⟩

/-- The condition of a keyword with a number or a boolean can be read. -/
theorem exists_numberCheck_eq_ok {keyword : String} {relation : Relation}
    (h : ∀ j, lookup ms keyword = some j → (∃ n, j = .number n) ∨ ∃ b, j = .bool b) :
    ∃ cs, numberCheck path ms (keyword, relation) = .ok cs := by
  rw [numberCheck]
  cases hj : lookup ms keyword with
  | none => exact ⟨[], by simp only [number?, hj]; rfl⟩
  | some j =>
    obtain ⟨n, rfl⟩ | ⟨b, rfl⟩ := h j hj
    · exact ⟨[⟨relation, n⟩], by simp only [number?, hj]; rfl⟩
    · exact ⟨[], rfl⟩

/-- Literals without parts are no fault. -/
theorem checkLiterals_of_scalars {n : Nat} {js : List Json} (h : ∀ j ∈ js, j.isComposite = false) :
    checkLiterals path n js = .ok () := by
  induction js generalizing n with
  | nil => rfl
  | cons j js ih =>
    have hj := h j List.mem_cons_self
    rw [checkLiterals, checkLiteral, if_neg (by rw [hj]; decide)]
    exact ih fun j hj => h j (List.mem_cons_of_mem _ hj)

/-- A list of texts can be read as one. -/
theorem texts_map_string {fault : String → SchemaFault} {n : Nat} (ss : List String) :
    texts path fault n (ss.map .string) = .ok ss := by
  induction ss generalizing n with
  | nil => rfl
  | cons s ss ih =>
    rw [List.map_cons, texts, ih]
    rfl

/-- The conditions on a text can be read if the keywords are numbers and there is no pattern. -/
theorem exists_textChecks_eq_ok
    (hn : ∀ key ∈ numeric, ∀ j, lookup ms key = some j → ∃ n, j = .number n)
    (hp : lookup ms "pattern" = none) : ∃ cs, textChecks path ms = .ok cs := by
  obtain ⟨min, hmin⟩ := exists_number?_eq_ok path (hn "minLength" (by decide))
  obtain ⟨max, hmax⟩ := exists_number?_eq_ok path (hn "maxLength" (by decide))
  rw [textChecks, hmin, hmax, patternOf, hp]
  exact ⟨_, rfl⟩

/-- The conditions on a number can be read if the keywords are numbers or booleans. -/
theorem exists_numberChecks_eq_ok
    (hn : ∀ key ∈ numeric, ∀ j, lookup ms key = some j → ∃ n, j = .number n)
    (he : ∀ key ∈ exclusive, ∀ j, lookup ms key = some j →
      (∃ n, j = .number n) ∨ ∃ b, j = .bool b) : ∃ cs, numberChecks path ms = .ok cs := by
  have hall : ∀ k ∈ numberKeywords ms, ∃ cs, numberCheck path ms k = .ok cs := by
    simp only [numberKeywords, List.forall_mem_cons, List.not_mem_nil, false_implies,
      implies_true, and_true]
    exact ⟨exists_numberCheck_eq_ok path fun j hj => .inl (hn "minimum" (by decide) j hj),
      exists_numberCheck_eq_ok path (he "exclusiveMinimum" (by decide)),
      exists_numberCheck_eq_ok path fun j hj => .inl (hn "maximum" (by decide) j hj),
      exists_numberCheck_eq_ok path (he "exclusiveMaximum" (by decide)),
      exists_numberCheck_eq_ok path fun j hj => .inl (hn "multipleOf" (by decide) j hj)⟩
  obtain ⟨css, hcss⟩ := exists_mapM_eq_ok hall
  rw [numberChecks, hcss]
  exact ⟨_, rfl⟩

/-- The conditions on the number of items can be read if the keywords are numbers. -/
theorem exists_sizeChecks_eq_ok
    (hn : ∀ key ∈ numeric, ∀ j, lookup ms key = some j → ∃ n, j = .number n) :
    ∃ cs, sizeChecks path ms = .ok cs := by
  obtain ⟨min, hmin⟩ := exists_number?_eq_ok path (hn "minItems" (by decide))
  obtain ⟨max, hmax⟩ := exists_number?_eq_ok path (hn "maxItems" (by decide))
  rw [sizeChecks, hmin, hmax]
  exact ⟨_, rfl⟩

/-- A list type has a validator if the schema of its items has one. -/
theorem exists_list_eq_ok (shape : TypeShape ms)
    (ih : Below Readable ms) :
    ∃ v, (childrenOf path ms).list path ms = .ok v := by
  obtain ⟨cs, hcs⟩ := exists_sizeChecks_eq_ok path shape.numeric
  rw [Children.list, childrenOf, itemsAt_eq, hcs]
  cases hi : lookup ms "items" with
  | none => exact ⟨_, rfl⟩
  -- a covered schema has one schema for all items, and none for each place
  | some j =>
    have hj : ∀ js, j ≠ .array js := fun js h => shape.items js (h ▸ hi)
    obtain ⟨v, hv⟩ := ih j (.items hi hj) (path ++ [.key "items"])
    cases j with
    | array js => exact (hj js rfl).elim
    | object os =>
      refine ⟨.array v cs, ?_⟩
      simp only [Option.map_some, itemsOf, hv]
      rfl
    | bool b => exact ⟨_, rfl⟩
    | null => cases hv
    | number _ => cases hv
    | string _ => cases hv

/-- The rest of an object can be read if its schema can. -/
theorem exists_additionalAt_eq_ok
    (ih : Below Readable ms) :
    ∃ rest, additionalAt path ms = .ok rest := by
  rw [additionalAt_eq]
  cases ha : lookup ms "additionalProperties" with
  | none => exact ⟨_, rfl⟩
  | some j =>
    cases j with
    | object os =>
      obtain ⟨v, hv⟩ := ih _ (.additional ha) (path ++ [.key "additionalProperties"])
      exact ⟨.each v, by rw [additionalOf, hv]; rfl⟩
    | bool b => cases b <;> exact ⟨_, rfl⟩
    | _ => exact ⟨_, rfl⟩

/-- The properties can be read if their schemas can. -/
theorem exists_propertiesAt_eq_ok (shape : TypeShape ms)
    (ih : Below Readable ms) :
    ∃ qs, propertiesAt path ms = .ok qs := by
  rw [propertiesAt_eq]
  cases hp : lookup ms "properties" with
  | none => exact ⟨_, rfl⟩
  | some j =>
    obtain ⟨ps, rfl⟩ := shape.properties j hp
    exact exists_ofMembers_eq_ok _ fun p h => ih p.2 (.property hp h)

/-- The required names can be read. -/
theorem exists_requiredNames_eq_ok (shape : TypeShape ms) :
    ∃ names, requiredNames path ms = .ok names := by
  rw [requiredNames]
  cases hr : lookup ms "required" with
  | none => exact ⟨_, rfl⟩
  | some j =>
    obtain ⟨names, rfl, -⟩ := shape.required j hr
    exact ⟨names, texts_map_string _ names⟩

/-- An object type has a validator if the schemas below have. -/
theorem exists_object_eq_ok (shape : TypeShape ms)
    (ih : Below Readable ms) :
    ∃ v, (childrenOf path ms).object path ms = .ok v := by
  obtain ⟨names, hnames⟩ := exists_requiredNames_eq_ok path shape
  obtain ⟨qs, hqs⟩ := exists_propertiesAt_eq_ok path shape ih
  obtain ⟨rest, hrest⟩ := exists_additionalAt_eq_ok path ih
  rw [Children.object, hnames, childrenOf, hqs, hrest]
  cases hp : lookup ms "properties" with
  | none => exact ⟨_, rfl⟩
  | some j =>
    obtain ⟨ps, rfl⟩ := shape.properties j hp
    exact ⟨_, rfl⟩

/-- A known type has a validator if the schemas below have. -/
theorem exists_typed_eq_ok (shape : TypeShape ms) (hp : lookup ms "pattern" = none)
    (ih : Below Readable ms) {name : String}
    (hk : name ∈ kinds) : ∃ v, (childrenOf path ms).typed path ms name = .ok v := by
  simp only [kinds, List.mem_cons, List.not_mem_nil, or_false] at hk
  obtain rfl | rfl | rfl | rfl | rfl | rfl | rfl := hk
  · obtain ⟨cs, hcs⟩ := exists_textChecks_eq_ok path shape.numeric hp
    exact ⟨.text cs, by rw [Children.typed, hcs]; rfl⟩
  · obtain ⟨cs, hcs⟩ := exists_numberChecks_eq_ok path shape.numeric shape.exclusive
    exact ⟨.number false cs, by rw [Children.typed, hcs]; rfl⟩
  · obtain ⟨cs, hcs⟩ := exists_numberChecks_eq_ok path shape.numeric shape.exclusive
    exact ⟨.number true cs, by rw [Children.typed, hcs]; rfl⟩
  · exact ⟨.boolean, rfl⟩
  · exact ⟨.null, rfl⟩
  · exact exists_list_eq_ok path shape ih
  · exact exists_object_eq_ok path shape ih

/-- Types that have validators one by one have one for any of them. -/
theorem exists_typedAny_eq_ok {c : Children} {names : List String}
    (h : ∀ name ∈ names, ∃ v, c.typed path ms name = .ok v) :
    ∃ v, c.typedAny path ms names = .ok v := by
  match names with
  | [] => exact ⟨_, rfl⟩
  | [name] => exact h name (by simp)
  | name :: name' :: names =>
    obtain ⟨vs, hvs⟩ := exists_mapM_eq_ok h
    exact ⟨.union vs, by rw [Children.typedAny, hvs]; rfl; all_goals nofun⟩

/-- What decides about a covered node can be read if the schemas below can. -/
theorem exists_base_eq_ok (hn : CoveredNode (.object ms))
    (ih : Below Readable ms) :
    ∃ v, (childrenOf path ms).base path ms = .ok v := by
  obtain ⟨d, reading, hd, hreading, hdecided⟩ := exists_decided path ms
  rw [hreading]
  -- the one keyword of this form decides, and its value has the form that is read
  cases hn with
  | const keys h hj =>
    obtain rfl := (decider_eq_const h).symm.trans hd
    cases hdecided with
    | const h' =>
      cases h.symm.trans h'
      rw [ofConst, checkLiteral, hj]
      exact ⟨_, rfl⟩
  | enum keys h hjs =>
    obtain rfl := (decider_eq_enum keys h).symm.trans hd
    cases hdecided with
    | enum h' =>
      cases h.symm.trans h'
      rw [ofEnum, checkLiterals_of_scalars _ hjs]
      exact ⟨_, rfl⟩
  | anyOf keys h hjs =>
    obtain rfl := (decider_eq_anyOf keys h).symm.trans hd
    obtain ⟨vs, hvs⟩ := exists_ofList_eq_ok (path ++ [.key "anyOf"]) 0
      fun j hj => ih j (.member (by decide) h hj)
    cases hdecided with
    | anyOf h' =>
      cases h.symm.trans h'
      rw [listAt, hvs]
      exact ⟨_, rfl⟩
  | allOf keys h hjs =>
    obtain rfl := (decider_eq_allOf keys h).symm.trans hd
    obtain ⟨vs, hvs⟩ := exists_ofList_eq_ok (path ++ [.key "allOf"]) 0
      fun j hj => ih j (.member (by decide) h hj)
    cases hdecided with
    | allOf h' =>
      cases h.symm.trans h'
      rw [listAt, hvs]
      exact ⟨_, rfl⟩
  | typed keys shape =>
    have hp : lookup ms "pattern" = none := keys.lookup_eq_none "pattern" (by decide)
    obtain ⟨names, htypes⟩ := shape.types
    obtain rfl := (decider_eq_type keys htypes).symm.trans hd
    cases htypes with
    | one h hk =>
      cases hdecided with
      | type h' =>
        cases h.symm.trans h'
        exact exists_typed_eq_ok path shape hp ih hk
      | types h' => cases h.symm.trans h'
      | notType h' hstring => exact absurd (Option.some.inj (h'.symm.trans h)) (hstring _)
    | several h _ hk =>
      cases hdecided with
      | type h' => cases h.symm.trans h'
      | types h' =>
        cases h.symm.trans h'
        rw [texts_map_string]
        exact exists_typedAny_eq_ok path fun name hname =>
          exists_typed_eq_ok path shape hp ih (hk name hname)
      | notType h' _ harray => exact absurd (Option.some.inj (h'.symm.trans h)) (harray _)

/-- A covered schema has a validator. -/
theorem exists_ofSchema_of_covered {schema : Json} (h : Covered schema) :
    ∃ v, ofSchema schema = .ok v := by
  suffices hall : ∀ path, ∃ v, ofJson path schema = .ok v from hall []
  induction schema using child_induction with
  | step schema ih =>
    intro path
    have hn := h.here
    have ih := fun c hc => ih c hc (h.below hc)
    match schema, hn with
    | .object ms, hn =>
      obtain ⟨v, hv⟩ := exists_base_eq_ok path hn ih
      exact ⟨dressed ms v, by rw [ofJson_object, hv]; rfl⟩

end Promptwright.Validator
