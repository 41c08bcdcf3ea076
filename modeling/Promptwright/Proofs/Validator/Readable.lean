import Promptwright.Proofs.Validator.Faults

/-!
# Which schemas can be read

A schema that can be read has no value that is at fault in any node that reading comes to.  With
what an error tells about a schema that cannot be read, this says which schemas can.

## Key results

- `Typed.items`, `Typed.members`, `Typed.boundAllows`, `Typed.pattern`: the keywords of a type that
  is read
- `exists_yields_of_reached`: what reading comes to can be read
- `not_misread_of_yields`: a node that can be read has no value that is at fault
- `exists_error_iff`: which schemas cannot be read
-/

namespace Promptwright.Validator

open Json.Members (lookup)

variable {path : SchemaPath} {ms : Json.Members}

/-! ## What is read of a node -/

/-- What decides about a node is read. -/
theorem exists_decision_of_yields {d : Decider} {v : Validator} (hd : decider ms = d)
    (hv : Yields (.object ms) v) : ∃ w, Decision ms d w := by
  obtain ⟨w, hw, -⟩ := yields_object hv
  exact ⟨w, hd ▸ hw⟩

/-- The types that a node has are read with their keywords. -/
theorem exists_typed_of_hasType {type : String} {v : Validator} (ht : HasType ms type)
    (hv : Yields (.object ms) v) : ∃ w, Typed ms type w := by
  obtain ⟨w, hw⟩ := exists_decision_of_yields ht.1 hv
  cases hw with
  | @type name _ h hv =>
    obtain ht | ⟨types, ht, -⟩ := ht.2
    · rw [h] at ht
      cases ht
      exact ⟨w, hv⟩
    · rw [h] at ht
      cases ht
  | @types names vs h hvs =>
    obtain ht | ⟨types, ht, hmem⟩ := ht.2
    · rw [h] at ht
      cases ht
    · rw [h] at ht
      -- the types of a node are those that were read one by one
      have hnames : names = types := by
        have := Json.array.inj (Option.some.inj ht)
        exact List.map_injective_iff.mpr (fun _ _ => Json.string.inj) this
      subst hnames
      obtain ⟨w, -, hw⟩ := exists_of_mem_left hvs hmem
      exact ⟨w, hw⟩

/-- The list of schemas that decides about a node that is read is read one by one. -/
theorem exists_yields_of_combinator {key : String} {j : Json} {v : Validator}
    (hd : (decider ms).combinator? = some key) (h : lookup ms key = some j)
    (hv : Yields (.object ms) v) : ∃ js vs, j = .array js ∧ List.Forall₂ Yields js vs := by
  obtain ⟨w, hw⟩ := exists_decision_of_yields rfl hv
  generalize decider ms = d at hd hw
  have hlist : ∀ {js vs}, lookup ms key = some (.array js) → List.Forall₂ Yields js vs →
      ∃ js vs, j = .array js ∧ List.Forall₂ Yields js vs := fun h' hvs =>
    ⟨_, _, Option.some.inj (h.symm.trans h'), hvs⟩
  cases hw with
  | anyOf h' hvs => cases hd; exact hlist h' hvs
  | oneOf h' hvs => cases hd; exact hlist h' hvs
  | allOf h' hvs => cases hd; exact hlist h' hvs
  | _ => cases hd

/-- The schemas of the items of a node of type array are read. -/
theorem Typed.items {w : Validator} (h : Typed ms "array" w) {j : Json}
    (hj : lookup ms "items" = some j) :
    (∃ v, Yields j v) ∨ ∃ js vs, j = .array js ∧ List.Forall₂ Yields js vs := by
  generalize hname : "array" = type at h
  cases h with
  | list hi _ => exact absurd (hi.symm.trans hj) nofun
  | each hi _ hv _ =>
    obtain rfl := Option.some.inj (hi.symm.trans hj)
    exact .inl ⟨_, hv⟩
  | inOrder hi hvs _ => exact .inr ⟨_, _, Option.some.inj (hj.symm.trans hi), hvs⟩
  | unknown hu => exact (hu (hname ▸ by decide)).elim
  | _ => exact absurd hname (by decide)

/-- The keywords of a node of type object are read. -/
theorem Typed.members {w : Validator} (h : Typed ms "object" w) :
    (∀ j, lookup ms "properties" = some j → ∃ ps, j = .object ps) ∧
      (∃ path names, requiredNames path ms = .ok names) ∧
      (∀ p ∈ Json.declared ms, ∃ v, Yields p.2 v) ∧
      ∀ os, lookup ms "additionalProperties" = some (.object os) → ∃ v, Yields (.object os) v := by
  generalize hname : "object" = type at h
  -- a type that is known is read in its own way only
  cases h with
  | object hp hn hq hr =>
    refine ⟨hp, ⟨_, _, hn⟩, fun p hmem => ?_, fun os hos => ?_⟩
    · obtain ⟨q, -, -, hv⟩ := exists_of_mem_left hq hmem
      exact ⟨q.2, hv⟩
    · cases hr with
      | each h hv =>
        cases h.symm.trans hos
        exact ⟨_, hv⟩
      | nothing h => cases h.symm.trans hos
      | free _ ho => exact absurd hos (ho os)
  | unknown hu => exact (hu (hname ▸ by decide)).elim
  | _ => exact absurd hname (by decide)

/-- What is read of a node that can be read can be read. -/
theorem exists_yields_of_dispatched {place : SchemaPath} {j : Json} {v : Validator}
    (h : Dispatched ms place j) (hv : Yields (.object ms) v) : ∃ w, Yields j w := by
  -- what is read below a keyword has a validator, as the keyword has been read with it
  cases h with
  | member hd h hj =>
    obtain ⟨js, vs, heq, hvs⟩ := exists_yields_of_combinator hd h hv
    cases heq
    obtain ⟨w, -, hw⟩ := exists_of_mem_left hvs (List.mem_of_getElem? hj)
    exact ⟨w, hw⟩
  | items ht h hj =>
    obtain ⟨w, hw⟩ := exists_typed_of_hasType ht hv
    obtain hy | ⟨js, vs, rfl, -⟩ := hw.items h
    · exact hy
    · cases hj
  | item ht h hj =>
    obtain ⟨w, hw⟩ := exists_typed_of_hasType ht hv
    obtain ⟨v, hy⟩ | ⟨js, vs, heq, hvs⟩ := hw.items h
    · cases isSchema_of_yields hy
    · cases heq
      obtain ⟨w, -, hw⟩ := exists_of_mem_left hvs (List.mem_of_getElem? hj)
      exact ⟨w, hw⟩
  | property ht h hj =>
    obtain ⟨w, hw⟩ := exists_typed_of_hasType ht hv
    have hmem := Json.Members.mem_of_lookup hj
    exact hw.members.2.2.1 _ (by rw [Json.declared, h]; exact hmem)
  | additional ht h =>
    obtain ⟨w, hw⟩ := exists_typed_of_hasType ht hv
    exact hw.members.2.2.2 _ h

/-- A keyword whose number is read has a number, if it is there. -/
theorem exists_number_of_number? {keyword : String} {o : Option Json.Number}
    (h : number? path ms keyword = .ok o) {j : Json} (hj : lookup ms keyword = some j) :
    ∃ n, j = .number n := by
  rw [number?, hj] at h
  cases j with
  | number n => exact ⟨n, rfl⟩
  | _ => cases h

section Bounds

variable {keyword : String} {j : Json}

/-- A keyword whose number is read is let through. -/
theorem boundAllows_of_number? {o : Option Json.Number} (h : number? path ms keyword = .ok o)
    (hj : lookup ms keyword = some j) : boundAllows keyword j = true := by
  obtain ⟨n, rfl⟩ := exists_number_of_number? h hj
  rfl

/-- The keywords of a text are let through if they are read. -/
theorem boundAllows_of_textChecks {cs : List TextCheck} (h : textChecks path ms = .ok cs)
    (hk : keyword ∈ boundsOf "string") (hj : lookup ms keyword = some j) :
    boundAllows keyword j = true := by
  obtain ⟨min, hmin, h⟩ := bind_eq_ok h
  obtain ⟨max, hmax, -⟩ := bind_eq_ok h
  obtain rfl | rfl := List.mem_pair.mp hk
  · exact boundAllows_of_number? hmin hj
  · exact boundAllows_of_number? hmax hj

/-- The keywords of a number are let through if they are read. -/
theorem boundAllows_of_numberChecks {cs : List NumberCheck} (h : numberChecks path ms = .ok cs)
    (hk : keyword ∈ numberBounds) (hj : lookup ms keyword = some j) :
    boundAllows keyword j = true := by
  obtain ⟨css, hcss, -⟩ := bind_eq_ok h
  have hk' : keyword ∈ (numberKeywords ms).map Prod.fst := hk
  obtain ⟨⟨_, relation⟩, hmem, rfl⟩ := List.mem_map.mp hk'
  obtain ⟨cs, -, hcheck⟩ := exists_of_mem_left (mapM_eq_ok hcss) hmem
  rw [numberCheck, hj] at hcheck
  cases j with
  | bool b => simpa [boundAllows] using hk
  | _ =>
    obtain ⟨n, hn, -⟩ := bind_eq_ok hcheck
    exact boundAllows_of_number? hn hj

/-- The keywords of a number of items are let through if they are read. -/
theorem boundAllows_of_sizeChecks {cs : List SizeCheck} (h : sizeChecks path ms = .ok cs)
    (hk : keyword ∈ boundsOf "array") (hj : lookup ms keyword = some j) :
    boundAllows keyword j = true := by
  obtain ⟨min, hmin, h⟩ := bind_eq_ok h
  obtain ⟨max, hmax, -⟩ := bind_eq_ok h
  obtain rfl | rfl := List.mem_pair.mp hk
  · exact boundAllows_of_number? hmin hj
  · exact boundAllows_of_number? hmax hj

/-- The keywords with numbers of a type that is read have numbers, or booleans that are let
through. -/
theorem Typed.boundAllows {type : String} {w : Validator} (h : Typed ms type w)
    (hk : keyword ∈ boundsOf type) (hj : lookup ms keyword = some j) :
    boundAllows keyword j = true := by
  cases h with
  | text h => exact boundAllows_of_textChecks h hk hj
  | number h => exact boundAllows_of_numberChecks h hk hj
  | integer h => exact boundAllows_of_numberChecks h hk hj
  | list _ h => exact boundAllows_of_sizeChecks h hk hj
  | each _ _ _ h => exact boundAllows_of_sizeChecks h hk hj
  | inOrder _ _ h => exact boundAllows_of_sizeChecks h hk hj
  | boolean => cases hk
  | null => cases hk
  | object => cases hk
  | unknown hu =>
    -- no keyword goes with a type that is not known
    unfold boundsOf at hk
    split at hk
    all_goals first | exact absurd (by decide) hu | cases hk

end Bounds

/-- The pattern of a type that is read is a text. -/
theorem Typed.pattern {w : Validator} (h : Typed ms "string" w) {j : Json}
    (hj : lookup ms "pattern" = some j) : ∃ s, j = .string s := by
  generalize hname : "string" = type at h
  cases h with
  | text h =>
    obtain ⟨min, -, h⟩ := bind_eq_ok h
    obtain ⟨max, -, h⟩ := bind_eq_ok h
    obtain ⟨pattern, h, -⟩ := bind_eq_ok h
    rw [patternOf, hj] at h
    cases j with
    | string s => exact ⟨s, rfl⟩
    | _ => cases h
  | unknown hu => exact (hu (hname ▸ by decide)).elim
  | _ => exact absurd hname (by decide)

/-- A node that can be read has no value that is at fault. -/
theorem not_misread_of_yields {place : SchemaPath} {j : Json} {fault : SchemaFault}
    {v : Validator} (hv : Yields (.object ms) v) : ¬ Misread ms place j fault := by
  intro h
  -- each keyword was read, which takes the form that a fault denies
  cases h with
  | const hd h hj =>
    obtain ⟨w, hw⟩ := exists_decision_of_yields hd hv
    cases hw with
    | const h' hscalar =>
      cases h.symm.trans h'
      rw [hscalar] at hj
      cases hj
  | enum hd h hj =>
    obtain ⟨w, hw⟩ := exists_decision_of_yields hd hv
    cases hw with
    | enum h' _ => exact hj _ (Option.some.inj (h.symm.trans h'))
  | enumItem hd h hn hj =>
    obtain ⟨w, hw⟩ := exists_decision_of_yields hd hv
    cases hw with
    | enum h' hscalar =>
      cases h.symm.trans h'
      rw [hscalar _ (List.mem_of_getElem? hn)] at hj
      cases hj
  | members hd h hj =>
    obtain ⟨js, vs, rfl, -⟩ := exists_yields_of_combinator hd h hv
    exact hj js rfl
  | type hd h hs hj =>
    obtain ⟨w, hw⟩ := exists_decision_of_yields hd hv
    cases hw with
    | type h' _ => exact hs _ (Option.some.inj (h.symm.trans h'))
    | types h' _ => exact hj _ (Option.some.inj (h.symm.trans h'))
  | typeName hd h hn hj =>
    obtain ⟨w, hw⟩ := exists_decision_of_yields hd hv
    cases hw with
    | type h' _ => cases h.symm.trans h'
    | types h' _ =>
      cases h.symm.trans h'
      obtain ⟨s, -, hs⟩ := List.mem_map.mp (List.mem_of_getElem? hn)
      exact hj s hs.symm
  | pattern ht h hj =>
    obtain ⟨w, hw⟩ := exists_typed_of_hasType ht hv
    obtain ⟨s, rfl⟩ := hw.pattern h
    exact hj s rfl
  | bound ht hk h hj =>
    obtain ⟨w, hw⟩ := exists_typed_of_hasType ht hv
    rw [hw.boundAllows hk h] at hj
    cases hj
  | items ht h hs hj =>
    obtain ⟨w, hw⟩ := exists_typed_of_hasType ht hv
    obtain ⟨v, hy⟩ | ⟨js, vs, rfl, -⟩ := hw.items h
    · rw [isSchema_of_yields hy] at hs
      cases hs
    · exact hj js rfl
  | properties ht h hj =>
    obtain ⟨w, hw⟩ := exists_typed_of_hasType ht hv
    obtain ⟨ps, rfl⟩ := hw.members.1 _ h
    exact hj ps rfl
  | required ht h hj =>
    obtain ⟨w, hw⟩ := exists_typed_of_hasType ht hv
    obtain ⟨path, names, hn⟩ := hw.members.2.1
    obtain ⟨hnone, -⟩ | hnames := requiredNames_eq_ok hn
    · cases hnone.symm.trans h
    · exact hj _ (Option.some.inj (h.symm.trans hnames))
  | requiredName ht h hi hj =>
    obtain ⟨w, hw⟩ := exists_typed_of_hasType ht hv
    obtain ⟨path, names, hn⟩ := hw.members.2.1
    obtain ⟨hnone, -⟩ | hnames := requiredNames_eq_ok hn
    · cases hnone.symm.trans h
    · cases h.symm.trans hnames
      obtain ⟨s, -, hs⟩ := List.mem_map.mp (List.mem_of_getElem? hi)
      exact hj s hs.symm

/-- What is reached in a schema that can be read can be read. -/
theorem exists_yields_of_reached {schema node : Json} {way : SchemaPath}
    (h : Reached schema way node) {v : Validator} (hv : Yields schema v) :
    ∃ w, Yields node w := by
  induction h generalizing v with
  | here schema => exact ⟨v, hv⟩
  | step hd _ ih =>
    obtain ⟨w, hw⟩ := exists_yields_of_dispatched hd hv
    exact ih hw

/-- A schema cannot be read exactly if a value in it is at fault. -/
theorem exists_error_iff {schema : Json} (hw : schema.WellFormed) (path : SchemaPath) :
    (∃ e, ofJson path schema = .error e) ↔ ∃ place j fault, AtFault schema place j fault := by
  constructor
  · rintro ⟨e, h⟩
    obtain ⟨place, j, hfault, -⟩ := atFault_of_error hw h
    exact ⟨place, j, e.fault, hfault⟩
  · rintro ⟨place, j, fault, way, node, rest, hr, ho, -⟩
    cases h : ofJson path schema with
    | error e => exact ⟨e, rfl⟩
    | ok v =>
      obtain ⟨w, hy⟩ := exists_yields_of_reached hr ⟨path, h⟩
      cases ho with
      | notSchema hs => exact absurd (isSchema_of_yields hy) (by simp [hs])
      | misread hm => exact absurd hm (not_misread_of_yields hy)

end Promptwright.Validator
