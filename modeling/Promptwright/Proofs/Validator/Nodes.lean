import Promptwright.Proofs.Except
import Promptwright.Proofs.Validator.Subschemas
import Promptwright.Validator.OfSchema

/-!
# How the validator of a node is put together

A node yields a validator by its deciding keyword, and the validators of the schemas below it go
into it.  `Typed` and `Decision` list what there is to know about a successful reading: which
keyword decided, the values under it, and the validators of the schemas there.

## Key results

- `membersAt_eq`, `itemsAt_eq`, `propertiesAt_eq`, `additionalAt_eq`: the schemas below a node, by
  the value of the keyword
- `ofList_eq_ok`, `ofMembers_eq_ok`: validators one by one
- `yields_object`: what decided about a node
-/

namespace Promptwright.Validator

open Json (declared propertyNames)
open Json.Members (lookup)

/-! ## The schemas below a node -/

/-- A schema yields a validator, wherever it is. -/
def Yields (schema : Json) (v : Validator) : Prop := ∃ path, ofJson path schema = .ok v

/-- What yields a validator has the shape of a schema. -/
theorem isSchema_of_yields {j : Json} {v : Validator} (h : Yields j v) : j.isSchema = true := by
  obtain ⟨path, h⟩ := h
  cases j with
  | object _ => rfl
  | bool _ => rfl
  | null => cases h
  | number _ => cases h
  | string _ => cases h
  | array _ => cases h

/-- A list of schemas yields validators one by one. -/
theorem ofList_eq_ok {path : SchemaPath} {n : Nat} {js : List Json} {vs : List Validator}
    (h : ofList path n js = .ok vs) : List.Forall₂ Yields js vs := by
  induction js generalizing n vs with
  | nil =>
    cases h
    exact .nil
  | cons j js ih =>
    rw [ofList] at h
    obtain ⟨v, hv, h⟩ := bind_eq_ok h
    obtain ⟨ws, hws, h⟩ := bind_eq_ok h
    cases h
    exact .cons ⟨_, hv⟩ (ih hws)

/-- Named schemas yield validators one by one, under the same names. -/
theorem ofMembers_eq_ok {path : SchemaPath} {ps : Json.Members} {qs : List (String × Validator)}
    (h : ofMembers path ps = .ok qs) :
    List.Forall₂ (fun p q => p.1 = q.1 ∧ Yields p.2 q.2) ps qs := by
  induction ps generalizing qs with
  | nil =>
    cases h
    exact .nil
  | cons p ps ih =>
    obtain ⟨name, j⟩ := p
    rw [ofMembers] at h
    obtain ⟨v, hv, h⟩ := bind_eq_ok h
    obtain ⟨ws, hws, h⟩ := bind_eq_ok h
    cases h
    exact .cons ⟨rfl, _, hv⟩ (ih hws)

/-- Looking up a key passes over other keys and stops at the first one. -/
theorem lookup_cons {k key : String} {j : Json} {ms : Json.Members} :
    lookup ((k, j) :: ms) key = if k = key then some j else lookup ms key := by
  rw [lookup, List.lookup_cons]
  by_cases h : k = key
  · rw [if_pos h, h, BEq.rfl]
  · rw [if_neg h, beq_false_of_ne (Ne.symm h)]
    rfl

/-- What stops at the first member with a key looks the key up. -/
private theorem scan_eq_lookup {α : Type} {key : String} {scan : Json.Members → α}
    (found : Option Json → α) (nil : scan [] = found none)
    (cons : ∀ k j ms, scan ((k, j) :: ms) = if k = key then found (some j) else scan ms)
    (ms : Json.Members) : scan ms = found (lookup ms key) := by
  induction ms with
  | nil => exact nil
  | cons m ms ih =>
    rw [cons, lookup_cons, ih]
    split <;> rfl

/-- The list under a keyword. -/
def listAt (path : SchemaPath) (keyword : String) : Json → SchemaReading (List Validator)
  | .array js => ofList (path ++ [.key keyword]) 0 js
  | j => .error ⟨path ++ [.key keyword], .notMembers j.kind⟩

/-- The lists of schemas, by the value of the keyword. -/
theorem membersAt_eq (path : SchemaPath) (keyword : String) (ms : Json.Members) :
    membersAt path keyword ms = (lookup ms keyword).map (listAt path keyword) :=
  scan_eq_lookup (Option.map (listAt path keyword)) rfl
    (fun _ j _ => by cases j <;> simp only [membersAt] <;> rfl) ms

/-- What a value of `items` asks for. -/
def itemsOf (path : SchemaPath) : Json → SchemaReading Items
  | .array js => Items.inOrder <$> ofList (path ++ [.key "items"]) 0 js
  | .object os => Items.each <$> ofJson (path ++ [.key "items"]) (.object os)
  | .bool b => .ok (.each (if b then .any else .never))
  | j => .error ⟨path ++ [.key "items"], .notItems j.kind⟩

/-- The items, by the value of the keyword. -/
theorem itemsAt_eq (path : SchemaPath) (ms : Json.Members) :
    itemsAt path ms = (lookup ms "items").map (itemsOf path) :=
  scan_eq_lookup (Option.map (itemsOf path)) rfl
    (fun _ j _ => by cases j <;> simp only [itemsAt] <;> rfl) ms

/-- What a value of `properties` asks for. -/
def propertiesOf (path : SchemaPath) : Option Json → SchemaReading (List (String × Validator))
  | some (.object ps) => ofMembers (path ++ [.key "properties"]) ps
  | _ => .ok []

/-- The properties, by the value of the keyword. -/
theorem propertiesAt_eq (path : SchemaPath) (ms : Json.Members) :
    propertiesAt path ms = propertiesOf path (lookup ms "properties") :=
  scan_eq_lookup (propertiesOf path) rfl
    (fun _ j _ => by cases j <;> simp only [propertiesAt] <;> rfl) ms

/-- What a value of `additionalProperties` allows. -/
def additionalOf (path : SchemaPath) : Option Json → SchemaReading (Rest Validator)
  | some (.object os) => Rest.each <$> ofJson (path ++ [.key "additionalProperties"]) (.object os)
  | some (.bool false) => .ok .nothing
  | _ => .ok .free

/-- The rest of an object, by the value of the keyword. -/
theorem additionalAt_eq (path : SchemaPath) (ms : Json.Members) :
    additionalAt path ms = additionalOf path (lookup ms "additionalProperties") := by
  refine scan_eq_lookup (additionalOf path) rfl (fun _ j _ => ?_) ms
  cases j with
  | bool b => cases b <;> simp only [additionalAt] <;> rfl
  | _ => simp only [additionalAt]; rfl

/-! ## Types -/

/-- The names of the types that are known. -/
def kinds : List String := ["string", "number", "integer", "boolean", "null", "array", "object"]

/-- What a node allows in an object besides the properties. -/
inductive Additional (ms : Json.Members) : Rest Validator → Prop
  | each {os : Json.Members} {v : Validator}
      (h : lookup ms "additionalProperties" = some (.object os)) (hv : Yields (.object os) v) :
      Additional ms (.each v)
  | nothing (h : lookup ms "additionalProperties" = some (.bool false)) : Additional ms .nothing
  | free (hf : lookup ms "additionalProperties" ≠ some (.bool false))
      (ho : ∀ os, lookup ms "additionalProperties" ≠ some (.object os)) : Additional ms .free

/-- The validator of a type that a node names, with the other keywords of the node. -/
inductive Typed (ms : Json.Members) : String → Validator → Prop
  | text {path : SchemaPath} {cs : List TextCheck} (h : textChecks path ms = .ok cs) :
      Typed ms "string" (.text cs)
  | number {path : SchemaPath} {cs : List NumberCheck} (h : numberChecks path ms = .ok cs) :
      Typed ms "number" (.number false cs)
  | integer {path : SchemaPath} {cs : List NumberCheck} (h : numberChecks path ms = .ok cs) :
      Typed ms "integer" (.number true cs)
  | boolean : Typed ms "boolean" .boolean
  | null : Typed ms "null" .null
  | list {path : SchemaPath} {cs : List SizeCheck} (hi : lookup ms "items" = none)
      (h : sizeChecks path ms = .ok cs) : Typed ms "array" (.array .any cs)
  | each {path : SchemaPath} {j : Json} {v : Validator} {cs : List SizeCheck}
      (hi : lookup ms "items" = some j) (hj : ∀ js, j ≠ .array js) (hv : Yields j v)
      (h : sizeChecks path ms = .ok cs) : Typed ms "array" (.array v cs)
  | inOrder {path : SchemaPath} {js : List Json} {vs : List Validator} {cs : List SizeCheck}
      (hi : lookup ms "items" = some (.array js)) (hvs : List.Forall₂ Yields js vs)
      (h : sizeChecks path ms = .ok cs) : Typed ms "array" (.tuple vs cs)
  | object {path : SchemaPath} {names : List String} {qs : List (String × Validator)}
      {rest : Rest Validator} (hp : ∀ j, lookup ms "properties" = some j → ∃ ps, j = .object ps)
      (hn : requiredNames path ms = .ok names)
      (hq : List.Forall₂ (fun p q => p.1 = q.1 ∧ Yields p.2 q.2) (declared ms) qs)
      (hr : Additional ms rest) :
      Typed ms "object" (.object (qs.map fun (name, v) => ⟨name, names.contains name, v⟩) rest)
  | unknown {type : String} (h : type ∉ kinds) : Typed ms type (.unknown (.unknownType type))

/-- The readings of the schemas below a node. -/
def childrenOf (path : SchemaPath) (ms : Json.Members) : Children where
  anyOf := membersAt path "anyOf" ms
  oneOf := membersAt path "oneOf" ms
  allOf := membersAt path "allOf" ms
  items := itemsAt path ms
  properties := propertiesAt path ms
  additional := additionalAt path ms

variable {path : SchemaPath} {ms : Json.Members} {v : Validator}

/-- The texts in a list are all there is in it. -/
theorem texts_eq_ok {fault : String → SchemaFault} {n : Nat} {js : List Json} {ss : List String}
    (h : texts path fault n js = .ok ss) : js = ss.map .string := by
  induction js generalizing n ss with
  | nil =>
    cases h
    rfl
  | cons j js ih =>
    cases j with
    | string s =>
      rw [texts] at h
      obtain ⟨ts, hts, h⟩ := bind_eq_ok h
      cases h
      rw [ih hts]
      rfl
    | _ => cases h

/-- The required names are all that is listed. -/
theorem requiredNames_eq_ok {names : List String} (h : requiredNames path ms = .ok names) :
    (lookup ms "required" = none ∧ names = []) ∨
      lookup ms "required" = some (.array (names.map .string)) := by
  rw [requiredNames] at h
  split at h
  next hj =>
    cases h
    exact .inl ⟨hj, rfl⟩
  next js hjs =>
    rw [texts_eq_ok h] at hjs
    exact .inr hjs
  next => cases h

/-- The number of a keyword is the one that is looked up. -/
theorem number?_eq_ok {keyword : String} {o : Option Json.Number}
    (h : number? path ms keyword = .ok o) (n : Json.Number) :
    n ∈ o ↔ lookup ms keyword = some (.number n) := by
  rw [number?] at h
  split at h
  next hj =>
    cases h
    simp [hj]
  next m hj =>
    cases h
    simp [hj]
  next => cases h

/-- What `items` asks for, when a list is read. -/
theorem typed_of_list (h : (childrenOf path ms).list path ms = .ok v) : Typed ms "array" v := by
  rw [Children.list, childrenOf, itemsAt_eq] at h
  cases hi : lookup ms "items" with
  | none =>
    rw [hi] at h
    obtain ⟨cs, hcs, h⟩ := bind_eq_ok h
    cases h
    exact .list hi hcs
  | some j =>
    rw [hi] at h
    obtain ⟨asked, hasked, h⟩ := bind_eq_ok h
    -- `items` is read by its form, and the bounds on the size after it
    cases j with
    | array js =>
      obtain ⟨vs, hvs, rfl⟩ := map_eq_ok hasked
      obtain ⟨cs, hcs, h⟩ := bind_eq_ok h
      cases h
      exact .inOrder hi (ofList_eq_ok hvs) hcs
    | object os =>
      obtain ⟨w, hw, rfl⟩ := map_eq_ok hasked
      obtain ⟨cs, hcs, h⟩ := bind_eq_ok h
      cases h
      exact .each hi (fun js => nofun) ⟨_, hw⟩ hcs
    | bool b =>
      cases hasked
      obtain ⟨cs, hcs, h⟩ := bind_eq_ok h
      cases h
      refine .each hi (fun js => nofun) ⟨path, ?_⟩ hcs
      cases b <;> rfl
    | null => cases hasked
    | number _ => cases hasked
    | string _ => cases hasked

/-- What `additionalProperties` allows, when an object is read. -/
theorem additional_of_reading {rest : Rest Validator}
    (h : additionalAt path ms = .ok rest) : Additional ms rest := by
  rw [additionalAt_eq] at h
  cases hj : lookup ms "additionalProperties" with
  | none =>
    rw [hj] at h
    cases h
    exact .free (by rw [hj]; nofun) (by rw [hj]; nofun)
  | some j =>
    rw [hj] at h
    cases j with
    | object os =>
      obtain ⟨w, hw, rfl⟩ := map_eq_ok h
      exact .each hj ⟨_, hw⟩
    | bool b =>
      cases b with
      | false =>
        cases h
        exact .nothing hj
      | true =>
        cases h
        exact .free (by rw [hj]; nofun) (by rw [hj]; nofun)
    -- any other value asks for nothing, as if it were true
    | _ =>
      cases h
      exact .free (by rw [hj]; nofun) (by rw [hj]; nofun)

/-- What `properties` asks for, when it is an object or not there. -/
theorem declared_of_reading (hp : ∀ j, lookup ms "properties" = some j → ∃ ps, j = .object ps)
    {qs : List (String × Validator)} (h : propertiesAt path ms = .ok qs) :
    List.Forall₂ (fun p q => p.1 = q.1 ∧ Yields p.2 q.2) (declared ms) qs := by
  rw [propertiesAt_eq] at h
  rw [declared]
  cases hj : lookup ms "properties" with
  | none =>
    rw [hj] at h
    cases h
    exact .nil
  | some j =>
    rw [hj] at h
    obtain ⟨ps, rfl⟩ := hp j hj
    exact ofMembers_eq_ok h

/-- The properties and what is around them, when an object is read. -/
theorem typed_of_object (h : (childrenOf path ms).object path ms = .ok v) :
    Typed ms "object" v := by
  have hp : ∀ j, lookup ms "properties" = some j → ∃ ps, j = .object ps := by
    intro j hj
    rw [Children.object, hj] at h
    cases j with
    | object ps => exact ⟨ps, rfl⟩
    | _ => cases h
  rw [Children.object] at h
  split at h
  case h_3 => cases h
  all_goals
    obtain ⟨names, hn, h⟩ := bind_eq_ok h
    obtain ⟨qs, hq, h⟩ := bind_eq_ok h
    obtain ⟨rest, hr, h⟩ := bind_eq_ok h
    cases h
    exact .object hp hn (declared_of_reading hp hq) (additional_of_reading hr)

/-- What a type asks for. -/
theorem typed_of_reading {type : String} (h : (childrenOf path ms).typed path ms type = .ok v) :
    Typed ms type v := by
  by_cases hk : type ∈ kinds
  · simp only [kinds, List.mem_cons, List.not_mem_nil, or_false] at hk
    obtain rfl | rfl | rfl | rfl | rfl | rfl | rfl := hk
    · obtain ⟨cs, hcs, h⟩ := bind_eq_ok h
      cases h
      exact .text hcs
    · obtain ⟨cs, hcs, h⟩ := bind_eq_ok h
      cases h
      exact .number hcs
    · obtain ⟨cs, hcs, h⟩ := bind_eq_ok h
      cases h
      exact .integer hcs
    · cases h
      exact .boolean
    · cases h
      exact .null
    · exact typed_of_list h
    · exact typed_of_object h
  -- a name that is none of the seven leads to a validator for anything
  · have hu : (childrenOf path ms).typed path ms type = .ok (.unknown (.unknownType type)) := by
      simp only [kinds, List.mem_cons, List.not_mem_nil, or_false, not_or] at hk
      obtain ⟨h₁, h₂, h₃, h₄, h₅, h₆, h₇⟩ := hk
      rw [Children.typed] <;> assumption
    rw [hu] at h
    cases h
    exact .unknown hk

/-- The names of the properties are those that are declared. -/
theorem map_name_eq_propertyNames {names : List String} {qs : List (String × Validator)}
    (h : List.Forall₂ (fun p q => p.1 = q.1 ∧ Yields p.2 q.2) (declared ms) qs) :
    (qs.map fun (name, v) => Property.mk name (names.contains name) v).map Property.name =
      propertyNames ms := by
  rw [List.map_map, propertyNames]
  exact map_eq_map_of_forall₂ (h.imp fun _ _ hpq => hpq.1.symm)

/-! ## Decisions -/

/-- What decides about a node: a keyword, or that there is none. -/
inductive Decider
  | const
  | enum
  | anyOf
  | oneOf
  | allOf
  | type
  | nothing
deriving DecidableEq

/-- The first keyword that is there decides. -/
def decider (ms : Json.Members) : Decider :=
  if (lookup ms "const").isSome then .const
  else if (lookup ms "enum").isSome then .enum
  else if (lookup ms "anyOf").isSome then .anyOf
  else if (lookup ms "oneOf").isSome then .oneOf
  else if (lookup ms "allOf").isSome then .allOf
  else if (lookup ms "type").isSome then .type
  else .nothing

/-- The validator for any of the types that a node names. -/
def ofTypes (vs : List Validator) : Validator :=
  match vs with
  | [] => .unknown .emptyTypes
  | [v] => v
  | vs => .union vs

/-- What decides about a node, and the validator it asks for. -/
inductive Decision (ms : Json.Members) : Decider → Validator → Prop
  | const {j : Json} (h : lookup ms "const" = some j) (hj : j.isComposite = false) :
      Decision ms .const (.literal j)
  | enum {js : List Json} (h : lookup ms "enum" = some (.array js))
      (hjs : ∀ j ∈ js, j.isComposite = false) : Decision ms .enum (ofValues js)
  | anyOf {js : List Json} {vs : List Validator} (h : lookup ms "anyOf" = some (.array js))
      (hvs : List.Forall₂ Yields js vs) : Decision ms .anyOf (Children.union vs)
  | oneOf {js : List Json} {vs : List Validator} (h : lookup ms "oneOf" = some (.array js))
      (hvs : List.Forall₂ Yields js vs) : Decision ms .oneOf (Children.union vs)
  | allOf {js : List Json} {vs : List Validator} (h : lookup ms "allOf" = some (.array js))
      (hvs : List.Forall₂ Yields js vs) : Decision ms .allOf (Children.intersection vs)
  | type {name : String} {v : Validator} (h : lookup ms "type" = some (.string name))
      (hv : Typed ms name v) : Decision ms .type v
  | types {names : List String} {vs : List Validator}
      (h : lookup ms "type" = some (.array (names.map .string)))
      (hvs : List.Forall₂ (Typed ms) names vs) : Decision ms .type (ofTypes vs)
  | nothing : Decision ms .nothing (.unknown .noType)

/-- The readings of the types that a node names. -/
theorem typedAny_eq_ok {names : List String}
    (h : (childrenOf path ms).typedAny path ms names = .ok v) :
    ∃ vs, List.Forall₂ (Typed ms) names vs ∧ v = ofTypes vs := by
  match names with
  | [] =>
    cases h
    exact ⟨[], .nil, rfl⟩
  | [name] => exact ⟨[v], .cons (typed_of_reading h) .nil, rfl⟩
  | name :: name' :: names =>
    obtain ⟨vs, hvs, h⟩ := bind_eq_ok h
    cases h
    have hvs := (mapM_eq_ok hvs).imp fun _ _ => typed_of_reading
    match vs, hvs with
    | w :: w' :: ws, hvs => exact ⟨w :: w' :: ws, hvs, rfl⟩

/-- A list of schemas that was read. -/
theorem listAt_eq_ok {keyword : String} {j : Json} {vs : List Validator}
    (h : listAt path keyword j = .ok vs) : ∃ js, j = .array js ∧ List.Forall₂ Yields js vs := by
  cases j with
  | array js => exact ⟨js, rfl, ofList_eq_ok h⟩
  | _ => cases h

/-- A literal that is no fault has no parts. -/
theorem checkLiteral_eq_ok {j : Json} (h : checkLiteral path j = .ok ()) :
    j.isComposite = false := by
  rw [checkLiteral] at h
  split at h
  next => cases h
  next hj => exact Bool.eq_false_iff.mpr hj

/-- Literals that are no fault have no parts. -/
theorem checkLiterals_eq_ok {n : Nat} {js : List Json} (h : checkLiterals path n js = .ok ()) :
    ∀ j ∈ js, j.isComposite = false := by
  induction js generalizing n with
  | nil => exact nofun
  | cons j js ih =>
    rw [checkLiterals] at h
    obtain ⟨⟨⟩, hj, hjs⟩ := bind_eq_ok h
    exact List.forall_mem_cons.mpr ⟨checkLiteral_eq_ok hj, ih hjs⟩

/-- How a node is read by what decides about it. -/
inductive Decided (path : SchemaPath) (ms : Json.Members) :
    Decider → SchemaReading Validator → Prop
  | const {j : Json} (hj : lookup ms "const" = some j) :
      Decided path ms .const (ofConst path j)
  | enum {j : Json} (hj : lookup ms "enum" = some j) :
      Decided path ms .enum (ofEnum path j)
  | anyOf {j : Json} (hj : lookup ms "anyOf" = some j) :
      Decided path ms .anyOf (Children.union <$> listAt path "anyOf" j)
  | oneOf {j : Json} (hj : lookup ms "oneOf" = some j) :
      Decided path ms .oneOf (Children.union <$> listAt path "oneOf" j)
  | allOf {j : Json} (hj : lookup ms "allOf" = some j) :
      Decided path ms .allOf (Children.intersection <$> listAt path "allOf" j)
  | type {name : String} (hj : lookup ms "type" = some (.string name)) :
      Decided path ms .type ((childrenOf path ms).typed path ms name)
  | types {js : List Json} (hj : lookup ms "type" = some (.array js)) :
      Decided path ms .type (do
        (childrenOf path ms).typedAny path ms
          (← texts (path ++ [.key "type"]) .notTypeName 0 js))
  | notType {j : Json} (hj : lookup ms "type" = some j) (hstring : ∀ name, j ≠ .string name)
      (harray : ∀ js, j ≠ .array js) :
      Decided path ms .type (.error ⟨path ++ [.key "type"], .notType j.kind⟩)
  | nothing (hj : lookup ms "type" = none) : Decided path ms .nothing (.ok (.unknown .noType))

/-- The keywords are asked one after the other, and the first one that is there decides. -/
theorem exists_decided (path : SchemaPath) (ms : Json.Members) :
    ∃ d reading, decider ms = d ∧ (childrenOf path ms).base path ms = reading ∧
      Decided path ms d reading := by
  refine ⟨_, _, rfl, rfl, ?_⟩
  rw [Children.base, decider, childrenOf, membersAt_eq, membersAt_eq, membersAt_eq]
  cases hconst : lookup ms "const" with
  | some j => exact .const hconst
  | none =>
  cases henum : lookup ms "enum" with
  | some j => exact .enum henum
  | none =>
  cases hanyOf : lookup ms "anyOf" with
  | some j => exact .anyOf hanyOf
  | none =>
  cases honeOf : lookup ms "oneOf" with
  | some j => exact .oneOf honeOf
  | none =>
  cases hallOf : lookup ms "allOf" with
  | some j => exact .allOf hallOf
  | none =>
  cases htype : lookup ms "type" with
  | none => exact .nothing htype
  | some j =>
    cases j with
    | string name => exact .type htype
    | array js => exact .types htype
    | _ => exact .notType htype nofun nofun

/-- A reading of a node has a decision behind it. -/
theorem decision_of_reading (h : (childrenOf path ms).base path ms = .ok v) :
    Decision ms (decider ms) v := by
  obtain ⟨d, reading, hd, hreading, hdecided⟩ := exists_decided path ms
  rw [hreading] at h
  rw [hd]
  cases hdecided with
  | const hj =>
    obtain ⟨⟨⟩, hcheck, h⟩ := bind_eq_ok h
    cases h
    exact .const hj (checkLiteral_eq_ok hcheck)
  | @enum j hj =>
    cases j with
    | array js =>
      obtain ⟨⟨⟩, hcheck, h⟩ := bind_eq_ok h
      cases h
      exact .enum hj (checkLiterals_eq_ok hcheck)
    | _ => cases h
  | anyOf hj =>
    obtain ⟨vs, hlist, rfl⟩ := map_eq_ok h
    obtain ⟨js, rfl, hvs⟩ := listAt_eq_ok hlist
    exact .anyOf hj hvs
  | oneOf hj =>
    obtain ⟨vs, hlist, rfl⟩ := map_eq_ok h
    obtain ⟨js, rfl, hvs⟩ := listAt_eq_ok hlist
    exact .oneOf hj hvs
  | allOf hj =>
    obtain ⟨vs, hlist, rfl⟩ := map_eq_ok h
    obtain ⟨js, rfl, hvs⟩ := listAt_eq_ok hlist
    exact .allOf hj hvs
  | type hj => exact .type hj (typed_of_reading h)
  | types hj =>
    obtain ⟨names, hnames, h⟩ := bind_eq_ok h
    obtain ⟨vs, hvs, rfl⟩ := typedAny_eq_ok h
    rw [texts_eq_ok hnames] at hj
    exact .types hj hvs
  | notType => cases h
  | nothing =>
    cases h
    exact .nothing

/-- What `nullable` and `description` add to a validator. -/
def dressed (ms : Json.Members) (v : Validator) : Validator :=
  let v := if isTrue ms "nullable" then .nullable v else v
  match lookup ms "description" with
  | some (.string description) => .described v description
  | _ => v

/-- A node is read by its deciding keyword first. -/
theorem ofJson_object (path : SchemaPath) (ms : Json.Members) :
    ofJson path (.object ms) = dressed ms <$> (childrenOf path ms).base path ms := by
  rw [ofJson, Children.validator, childrenOf]
  cases Children.base _ path ms with
  | error e => rfl
  | ok w =>
    show (match lookup ms "description" with
      | some (.string description) => _
      | _ => _) = Except.ok (dressed ms w)
    rw [dressed]
    cases lookup ms "description" with
    | none => rfl
    | some j => cases j <;> rfl

/-- The validator of a node is the one that a keyword decided for, with what `nullable` and
`description` add. -/
theorem yields_object (h : Yields (.object ms) v) :
    ∃ w, Decision ms (decider ms) w ∧ v = dressed ms w := by
  obtain ⟨path, h⟩ := h
  rw [ofJson_object] at h
  obtain ⟨w, hw, rfl⟩ := map_eq_ok h
  exact ⟨w, decision_of_reading hw, rfl⟩

end Promptwright.Validator
