import Promptwright.Proofs.Json.Members
import Promptwright.Proofs.Validator.Nodes

/-!
# What makes a schema unreadable

`Reached` relates a schema to the nodes that reading it comes to, and `Offence` a node to the
values in it that cannot be read.  If reading a schema is an error, the error tells the place of
such a value and what is wrong with it.

Neither relation follows the order in which a node is read.  So if several values are at fault,
they do not say which of them is told.

## Key results

- `blamed_base`: the error of a node is for a value in it, or the error of a node just below
- `atFault_of_error`: the error of a schema tells a value that is at fault
-/

namespace Promptwright.Validator

open Json.Members (lookup)

/-! ## Nodes that are reached -/

/-- A node is decided by its type, and a type is among those that it names. -/
def HasType (ms : Json.Members) (type : String) : Prop :=
  decider ms = .type ∧ (lookup ms "type" = some (.string type) ∨
    ∃ types, lookup ms "type" = some (.strings types) ∧ type ∈ types)

/-- The keyword with a list of schemas that decides about a node. -/
def Decider.combinator? : Decider → Option String
  | .anyOf => some "anyOf"
  | .oneOf => some "oneOf"
  | .allOf => some "allOf"
  | _ => none

/-- A keyword with a list of schemas is one of three. -/
theorem mem_combinators_of_combinator? {d : Decider} {key : String}
    (h : d.combinator? = some key) : key ∈ Json.combinators := by
  cases d <;> cases h <;> decide

/-- The values just below a node that are read as nodes, and the ways to them. -/
inductive Dispatched (ms : Json.Members) : SchemaPath → Json → Prop
  | member {key : String} {js : List Json} {n : Nat} {j : Json}
      (hd : (decider ms).combinator? = some key) (h : lookup ms key = some (.array js))
      (hj : js[n]? = some j) : Dispatched ms [.key key, .index n] j
  | items {j : Json} (ht : HasType ms "array") (h : lookup ms "items" = some j)
      (hj : j.isSchema = true) : Dispatched ms [.key "items"] j
  | item {js : List Json} {n : Nat} {j : Json} (ht : HasType ms "array")
      (h : lookup ms "items" = some (.array js)) (hj : js[n]? = some j) :
      Dispatched ms [.key "items", .index n] j
  | property {ps : Json.Members} {name : String} {j : Json} (ht : HasType ms "object")
      (h : lookup ms "properties" = some (.object ps)) (hj : lookup ps name = some j) :
      Dispatched ms [.key "properties", .key name] j
  | additional {os : Json.Members} (ht : HasType ms "object")
      (h : lookup ms "additionalProperties" = some (.object os)) :
      Dispatched ms [.key "additionalProperties"] (.object os)

/-- The values in a schema that are read as nodes, and the ways to them. -/
inductive Reached : Json → SchemaPath → Json → Prop
  | here (schema : Json) : Reached schema [] schema
  | step {ms : Json.Members} {place place' : SchemaPath} {j node : Json}
      (h : Dispatched ms place j) (hr : Reached j place' node) :
      Reached (.object ms) (place ++ place') node

/-! ## Offences -/

/-- The keywords that bound a number. -/
def numberBounds : List String :=
  ["minimum", "exclusiveMinimum", "maximum", "exclusiveMaximum", "multipleOf"]

/-- The keywords with numbers that are read for a type. -/
def boundsOf : String → List String
  | "string" => ["minLength", "maxLength"]
  | "number" => numberBounds
  | "integer" => numberBounds
  | "array" => ["minItems", "maxItems"]
  | _ => []

/-- Whether a value may stand under a keyword with numbers: a number, or a boolean if it is a
number that the keyword bounds. -/
def boundAllows (keyword : String) : Json → Bool
  | .number _ => true
  | .bool _ => numberBounds.contains keyword
  | _ => false

/-- A node has, at a place in it, a value that has not the form that its keyword asks for. -/
inductive Misread (ms : Json.Members) : SchemaPath → Json → SchemaFault → Prop
  | const {j : Json} (hd : decider ms = .const) (h : lookup ms "const" = some j)
      (hj : j.isComposite = true) : Misread ms [.key "const"] j (.notLiteral j.kind)
  | enum {j : Json} (hd : decider ms = .enum) (h : lookup ms "enum" = some j)
      (hj : ∀ js, j ≠ .array js) : Misread ms [.key "enum"] j (.notEnum j.kind)
  | enumItem {js : List Json} {n : Nat} {j : Json} (hd : decider ms = .enum)
      (h : lookup ms "enum" = some (.array js)) (hn : js[n]? = some j)
      (hj : j.isComposite = true) : Misread ms [.key "enum", .index n] j (.notLiteral j.kind)
  | members {key : String} {j : Json} (hd : (decider ms).combinator? = some key)
      (h : lookup ms key = some j) (hj : ∀ js, j ≠ .array js) :
      Misread ms [.key key] j (.notMembers j.kind)
  | type {j : Json} (hd : decider ms = .type) (h : lookup ms "type" = some j)
      (hs : ∀ s, j ≠ .string s) (hj : ∀ js, j ≠ .array js) :
      Misread ms [.key "type"] j (.notType j.kind)
  | typeName {js : List Json} {n : Nat} {j : Json} (hd : decider ms = .type)
      (h : lookup ms "type" = some (.array js)) (hn : js[n]? = some j) (hj : ∀ s, j ≠ .string s) :
      Misread ms [.key "type", .index n] j (.notTypeName j.kind)
  | pattern {j : Json} (ht : HasType ms "string") (h : lookup ms "pattern" = some j)
      (hj : ∀ s, j ≠ .string s) : Misread ms [.key "pattern"] j .notPattern
  | bound {type keyword : String} {j : Json} (ht : HasType ms type)
      (hk : keyword ∈ boundsOf type) (h : lookup ms keyword = some j)
      (hj : boundAllows keyword j = false) :
      Misread ms [.key keyword] j (.notNumber keyword j.kind)
  | items {j : Json} (ht : HasType ms "array") (h : lookup ms "items" = some j)
      (hs : j.isSchema = false) (hj : ∀ js, j ≠ .array js) :
      Misread ms [.key "items"] j (.notItems j.kind)
  | properties {j : Json} (ht : HasType ms "object") (h : lookup ms "properties" = some j)
      (hj : ∀ ps, j ≠ .object ps) : Misread ms [.key "properties"] j (.notProperties j.kind)
  | required {j : Json} (ht : HasType ms "object") (h : lookup ms "required" = some j)
      (hj : ∀ js, j ≠ .array js) : Misread ms [.key "required"] j (.notRequired j.kind)
  | requiredName {js : List Json} {n : Nat} {j : Json} (ht : HasType ms "object")
      (h : lookup ms "required" = some (.array js)) (hn : js[n]? = some j)
      (hj : ∀ s, j ≠ .string s) :
      Misread ms [.key "required", .index n] j (.notRequiredName j.kind)

/-- A node that cannot be read: it is no schema, or has a value that has not the form that its
keyword asks for.  The way leads from the node to the value that is at fault. -/
inductive Offence : Json → SchemaPath → Json → SchemaFault → Prop
  | notSchema {node : Json} (h : node.isSchema = false) :
      Offence node [] node (.notSchema node.kind)
  | misread {ms : Json.Members} {place : SchemaPath} {j : Json} {fault : SchemaFault}
      (h : Misread ms place j fault) : Offence (.object ms) place j fault

/-- A value at a place in a schema is at fault. -/
def AtFault (schema : Json) (place : SchemaPath) (j : Json) (fault : SchemaFault) : Prop :=
  ∃ way node rest, Reached schema way node ∧ Offence node rest j fault ∧ place = way ++ rest

/-! ## The first fault of a list -/

variable {path : SchemaPath} {ms : Json.Members} {e : SchemaError} {α : Type}

/-- What goes through a list item by item fails at some item. -/
theorem exists_item_of_error {f : Nat → List Json → SchemaReading α} {R : Nat → Json → Prop}
    (nil : ∀ n, f n [] ≠ .error e)
    (cons : ∀ n j js, f n (j :: js) = .error e → R n j ∨ f (n + 1) js = .error e) {n : Nat}
    {js : List Json} (h : f n js = .error e) : ∃ i j, js[i]? = some j ∧ R (n + i) j := by
  induction js generalizing n with
  | nil => exact absurd h (nil n)
  | cons j js ih =>
    rcases cons n j js h with hj | h
    · exact ⟨0, j, rfl, hj⟩
    · obtain ⟨i, j', hi, hR⟩ := ih h
      -- what is counted from the next item is one less
      refine ⟨i + 1, j', hi, ?_⟩
      rwa [show n + (i + 1) = n + 1 + i by omega]

/-- Only texts can be read as texts. -/
theorem texts_eq_error {fault : String → SchemaFault} {js : List Json}
    (h : texts path fault 0 js = .error e) :
    ∃ i j, js[i]? = some j ∧ (∀ s, j ≠ .string s) ∧ e = ⟨path ++ [.index i], fault j.kind⟩ := by
  have hitem := exists_item_of_error (f := texts path fault)
    (R := fun n j => (∀ s, j ≠ .string s) ∧ e = ⟨path ++ [.index n], fault j.kind⟩) ?_ ?_ h
  · simpa using hitem
  · exact fun n => nofun
  · intro n j js h
    cases j with
    | string s =>
      rw [texts] at h
      exact .inr (bind_pure_eq_error h)
    | _ =>
      cases h
      exact .inl ⟨by simp, rfl⟩

/-- Only lists and objects are no literals. -/
theorem checkLiteral_eq_error {j : Json} (h : checkLiteral path j = .error e) :
    j.isComposite = true ∧ e = ⟨path, .notLiteral j.kind⟩ := by
  rw [checkLiteral] at h
  split at h
  next hj =>
    cases h
    exact ⟨hj, rfl⟩
  next => cases h

/-- Only lists and objects are no literals, item by item. -/
theorem checkLiterals_eq_error {js : List Json} (h : checkLiterals path 0 js = .error e) :
    ∃ i j, js[i]? = some j ∧ j.isComposite = true ∧
      e = ⟨path ++ [.index i], .notLiteral j.kind⟩ := by
  have hitem := exists_item_of_error (f := checkLiterals path)
    (R := fun n j => j.isComposite = true ∧ e = ⟨path ++ [.index n], .notLiteral j.kind⟩) ?_ ?_ h
  · simpa using hitem
  · exact fun n => nofun
  · intro n j js h
    rw [checkLiterals] at h
    obtain h | ⟨⟨⟩, -, h⟩ := bind_eq_error h
    · exact .inl (checkLiteral_eq_error h)
    · exact .inr h

/-- Where a list of schemas fails, one of them does. -/
theorem ofList_eq_error {js : List Json} (h : ofList path 0 js = .error e) :
    ∃ i j, js[i]? = some j ∧ ofJson (path ++ [.index i]) j = .error e := by
  have hitem := exists_item_of_error (f := ofList path)
    (R := fun n j => ofJson (path ++ [.index n]) j = .error e) ?_ ?_ h
  · simpa using hitem
  · exact fun n => nofun
  · intro n j js h
    rw [ofList] at h
    obtain h | ⟨v, -, h⟩ := bind_eq_error h
    · exact .inl h
    · exact .inr (bind_pure_eq_error h)

/-- Where named schemas fail, one of them does. -/
theorem ofMembers_eq_error {ps : Json.Members} (h : ofMembers path ps = .error e) :
    ∃ p ∈ ps, ofJson (path ++ [.key p.1]) p.2 = .error e := by
  induction ps with
  | nil => cases h
  | cons p ps ih =>
    rw [ofMembers] at h
    obtain h | ⟨v, -, h⟩ := bind_eq_error h
    · exact ⟨p, List.mem_cons_self, h⟩
    · obtain ⟨q, hq, hfail⟩ := ih (bind_pure_eq_error h)
      exact ⟨q, List.mem_cons_of_mem p hq, hfail⟩

/-! ## The faults of a node -/

/-- An error that a node is to blame for: a value in it, or the error of a node just below. -/
inductive Blamed (path : SchemaPath) (ms : Json.Members) (e : SchemaError) : Prop
  | misread {place : SchemaPath} {j : Json} (h : Misread ms place j e.fault)
      (hp : e.path = path ++ place)
  | dispatched {place : SchemaPath} {j : Json} (h : Dispatched ms place j)
      (hj : ofJson (path ++ place) j = .error e)

/-- A keyword that asks for a number. -/
theorem blamed_number? {type keyword : String} (ht : HasType ms type)
    (hk : keyword ∈ boundsOf type)
    (hbool : ∀ b, lookup ms keyword = some (.bool b) → keyword ∉ numberBounds)
    (h : number? path ms keyword = .error e) : Blamed path ms e := by
  rw [number?] at h
  split at h
  next => cases h
  next => cases h
  next j hnumber hj =>
    cases h
    refine .misread (.bound ht hk hj ?_) rfl
    cases j with
    | number n => exact absurd rfl (hnumber n)
    | bool b => simpa [boundAllows] using hbool b hj
    | _ => rfl

/-- The keywords of a text. -/
theorem blamed_textChecks (ht : HasType ms "string") (h : textChecks path ms = .error e) :
    Blamed path ms e := by
  obtain h | ⟨min, -, h⟩ := bind_eq_error h
  · exact blamed_number? ht (by decide) (fun _ _ => by decide) h
  obtain h | ⟨max, -, h⟩ := bind_eq_error h
  · exact blamed_number? ht (by decide) (fun _ _ => by decide) h
  have h := bind_pure_eq_error h
  rw [patternOf] at h
  split at h
  next => cases h
  next => cases h
  next j hstring hj =>
    cases h
    exact .misread (.pattern ht hj hstring) rfl

/-- The keywords of a number. -/
theorem blamed_numberChecks {type : String} (ht : HasType ms type)
    (hbounds : boundsOf type = numberBounds) (h : numberChecks path ms = .error e) :
    Blamed path ms e := by
  obtain ⟨⟨keyword, relation⟩, hk, h⟩ := mapM_eq_error (bind_pure_eq_error h)
  have hmem : keyword ∈ boundsOf type := by
    rw [hbounds]
    exact List.mem_map_of_mem (f := Prod.fst) hk
  rw [numberCheck] at h
  split at h
  next => cases h
  next hbool =>
    exact blamed_number? ht hmem (fun b hb => absurd hb (hbool b)) (bind_pure_eq_error h)

/-- The keywords of a number of items. -/
theorem blamed_sizeChecks (ht : HasType ms "array") (h : sizeChecks path ms = .error e) :
    Blamed path ms e := by
  obtain h | ⟨min, -, h⟩ := bind_eq_error h
  · exact blamed_number? ht (by decide) (fun _ _ => by decide) h
  · exact blamed_number? ht (by decide) (fun _ _ => by decide) (bind_pure_eq_error h)

/-- The keywords of a list. -/
theorem blamed_list (ht : HasType ms "array") (h : (childrenOf path ms).list path ms = .error e) :
    Blamed path ms e := by
  rw [Children.list, childrenOf, itemsAt_eq] at h
  cases hi : lookup ms "items" with
  | none =>
    rw [hi] at h
    exact blamed_sizeChecks ht (bind_pure_eq_error h)
  | some j =>
    rw [hi] at h
    obtain h | ⟨asked, -, h⟩ := bind_eq_error h
    -- the value of `items` is at fault itself, or holds what is
    · cases j with
      | array js =>
        obtain ⟨i, j, hj, h⟩ := ofList_eq_error (map_eq_error h)
        refine .dispatched (.item ht hi hj) ?_
        rwa [List.append_assoc] at h
      | object os => exact .dispatched (.items ht hi rfl) (map_eq_error h)
      | bool b => cases h
      | _ =>
        cases h
        exact .misread (.items ht hi rfl (by simp)) rfl
    -- the items have been read, so one of the bounds is at fault
    · cases asked with
      | each v => exact blamed_sizeChecks ht (bind_pure_eq_error h)
      | inOrder vs => exact blamed_sizeChecks ht (bind_pure_eq_error h)

/-- The names that are required. -/
theorem blamed_requiredNames (ht : HasType ms "object") (h : requiredNames path ms = .error e) :
    Blamed path ms e := by
  rw [requiredNames] at h
  split at h
  next => cases h
  next js hjs =>
    obtain ⟨i, j, hj, hstring, rfl⟩ := texts_eq_error h
    exact .misread (.requiredName ht hjs hj hstring) (List.append_assoc ..)
  next j harray hj =>
    cases h
    exact .misread (.required ht hj harray) rfl

/-- The schemas of the properties. -/
theorem blamed_propertiesAt (ht : HasType ms "object")
    (hw : ∀ ps, lookup ms "properties" = some (.object ps) → (Json.Members.keys ps).Nodup)
    (h : propertiesAt path ms = .error e) : Blamed path ms e := by
  rw [propertiesAt_eq] at h
  cases hp : lookup ms "properties" with
  | none => rw [hp] at h; cases h
  | some j =>
    rw [hp] at h
    cases j with
    | object ps =>
      obtain ⟨⟨name, j⟩, hmem, h⟩ := ofMembers_eq_error h
      have hj : lookup ps name = some j := (Json.Members.lookup_eq_some_iff (hw ps hp)).mpr hmem
      refine .dispatched (.property ht hp hj) ?_
      rwa [List.append_assoc] at h
    | _ => cases h

/-- The schema of what else an object holds. -/
theorem blamed_additionalAt (ht : HasType ms "object") (h : additionalAt path ms = .error e) :
    Blamed path ms e := by
  rw [additionalAt_eq] at h
  cases ha : lookup ms "additionalProperties" with
  | none => rw [ha] at h; cases h
  | some j =>
    rw [ha] at h
    cases j with
    | object os => exact .dispatched (.additional ht ha) (map_eq_error h)
    | bool b => cases b <;> cases h
    | _ => cases h

/-- The keywords of an object. -/
theorem blamed_object (ht : HasType ms "object")
    (hw : ∀ ps, lookup ms "properties" = some (.object ps) → (Json.Members.keys ps).Nodup)
    (h : (childrenOf path ms).object path ms = .error e) : Blamed path ms e := by
  rw [Children.object] at h
  split at h
  case h_3 j hobject hj =>
    cases h
    exact .misread (.properties ht hj hobject) rfl
  all_goals
    obtain h | ⟨names, -, h⟩ := bind_eq_error h
    · exact blamed_requiredNames ht h
    obtain h | ⟨qs, -, h⟩ := bind_eq_error h
    · exact blamed_propertiesAt ht hw h
    · exact blamed_additionalAt ht (bind_pure_eq_error h)

/-- The keywords of a type. -/
theorem blamed_typed {type : String} (ht : HasType ms type)
    (hw : ∀ ps, lookup ms "properties" = some (.object ps) → (Json.Members.keys ps).Nodup)
    (h : (childrenOf path ms).typed path ms type = .error e) : Blamed path ms e := by
  unfold Children.typed at h
  split at h
  case h_1 => exact blamed_textChecks ht (bind_pure_eq_error h)
  case h_2 => exact blamed_numberChecks ht rfl (bind_pure_eq_error h)
  case h_3 => exact blamed_numberChecks ht rfl (bind_pure_eq_error h)
  case h_6 => exact blamed_list ht h
  case h_7 => exact blamed_object ht hw h
  all_goals cases h

/-- The keywords of several types. -/
theorem blamed_typedAny {types : List String} (ht : ∀ type ∈ types, HasType ms type)
    (hw : ∀ ps, lookup ms "properties" = some (.object ps) → (Json.Members.keys ps).Nodup)
    (h : (childrenOf path ms).typedAny path ms types = .error e) : Blamed path ms e := by
  unfold Children.typedAny at h
  split at h
  next => cases h
  next type => exact blamed_typed (ht type List.mem_cons_self) hw h
  next =>
    obtain ⟨type, hmem, h⟩ := mapM_eq_error (bind_pure_eq_error h)
    exact blamed_typed (ht type hmem) hw h

/-- The schemas in a list under the keyword that decides. -/
theorem blamed_listAt {key : String} {j : Json} (hd : (decider ms).combinator? = some key)
    (hj : lookup ms key = some j) (h : listAt path key j = .error e) : Blamed path ms e := by
  cases j with
  | array js =>
    obtain ⟨i, j, hi, h⟩ := ofList_eq_error h
    refine .dispatched (.member hd hj hi) ?_
    rwa [List.append_assoc] at h
  | _ =>
    cases h
    exact .misread (.members hd hj nofun) rfl

/-- The keyword that decides about a node. -/
theorem blamed_base
    (hw : ∀ ps, lookup ms "properties" = some (.object ps) → (Json.Members.keys ps).Nodup)
    (h : (childrenOf path ms).base path ms = .error e) : Blamed path ms e := by
  obtain ⟨d, reading, hd, hreading, hdecided⟩ := exists_decided path ms
  rw [hreading] at h
  cases hdecided with
  | const hj =>
    obtain ⟨hcomposite, rfl⟩ := checkLiteral_eq_error (bind_pure_eq_error h)
    exact .misread (.const hd hj hcomposite) rfl
  | @enum j hj =>
    cases j with
    | array js =>
      obtain ⟨i, j, hi, hcomposite, rfl⟩ := checkLiterals_eq_error (bind_pure_eq_error h)
      exact .misread (.enumItem hd hj hi hcomposite) (List.append_assoc ..)
    | _ =>
      cases h
      exact .misread (.enum hd hj (by simp)) rfl
  | anyOf hj => exact blamed_listAt (congrArg Decider.combinator? hd) hj (map_eq_error h)
  | oneOf hj => exact blamed_listAt (congrArg Decider.combinator? hd) hj (map_eq_error h)
  | allOf hj => exact blamed_listAt (congrArg Decider.combinator? hd) hj (map_eq_error h)
  | type hj => exact blamed_typed ⟨hd, .inl hj⟩ hw h
  | types hj =>
    obtain h | ⟨names, hnames, h⟩ := bind_eq_error h
    · obtain ⟨i, j, hi, hstring, rfl⟩ := texts_eq_error h
      exact .misread (.typeName hd hj hi hstring) (List.append_assoc ..)
    · have hstrings : lookup ms "type" = some (.strings names) := by
        rw [hj, texts_eq_ok hnames]
        rfl
      exact blamed_typedAny (fun type hmem => ⟨hd, .inr ⟨names, hstrings, hmem⟩⟩) hw h
  | notType hj hstring harray =>
    cases h
    exact .misread (.type hd hj hstring harray) rfl
  | nothing => cases h

/-! ## Errors of schemas -/

/-- The value of a key is well formed. -/
theorem wellFormed_of_lookup {key : String} {j : Json} (hw : (Json.object ms).WellFormed)
    (h : lookup ms key = some j) : j.WellFormed :=
  Json.wellFormedMembers_iff.mp hw.2 _ (Json.Members.mem_of_lookup h)

/-- The items of a list under a key are well formed. -/
theorem wellFormed_of_item {key : String} {js : List Json} {j : Json}
    (hw : (Json.object ms).WellFormed) (h : lookup ms key = some (.array js)) (hj : j ∈ js) :
    j.WellFormed :=
  Json.wellFormedItems_iff.mp (wellFormed_of_lookup hw h) j hj

/-- The schemas below a node are well formed. -/
theorem wellFormed_of_child {j : Json} (h : Json.Child j (.object ms))
    (hw : (Json.object ms).WellFormed) : j.WellFormed := by
  cases h with
  | member _ h hj => exact wellFormed_of_item hw h hj
  | items h _ => exact wellFormed_of_lookup hw h
  | item h hj => exact wellFormed_of_item hw h hj
  | property h hp => exact Json.wellFormedMembers_iff.mp (wellFormed_of_lookup hw h).2 _ hp
  | additional h => exact wellFormed_of_lookup hw h

/-- What is read as a node is one of the schemas below. -/
theorem Dispatched.child {place : SchemaPath} {j : Json} (h : Dispatched ms place j) :
    Json.Child j (.object ms) := by
  cases h with
  | member hd h hj => exact .member (mem_combinators_of_combinator? hd) h (List.mem_of_getElem? hj)
  | items ht h hj =>
    refine .items h fun js => ?_
    rintro rfl
    cases hj
  | item ht h hj => exact .item h (List.mem_of_getElem? hj)
  | property ht h hj => exact .property h (Json.Members.mem_of_lookup hj)
  | additional ht h => exact .additional h

/-- The error of a schema tells a value that is at fault, and the way to it. -/
theorem atFault_of_error {schema : Json} (hw : schema.WellFormed)
    (h : ofJson path schema = .error e) :
    ∃ place j, AtFault schema place j e.fault ∧ e.path = path ++ place := by
  induction schema using Json.child_induction generalizing path with
  | step schema ih =>
    have hnotSchema : schema.isSchema = false → e = ⟨path, .notSchema schema.kind⟩ →
        ∃ place j, AtFault schema place j e.fault ∧ e.path = path ++ place := by
      rintro hschema rfl
      exact ⟨[], schema, ⟨[], schema, [], .here schema, .notSchema hschema, rfl⟩,
        (List.append_nil path).symm⟩
    cases schema with
    | object ms =>
      rw [ofJson_object] at h
      have hkeys : ∀ ps, lookup ms "properties" = some (.object ps) →
          (Json.Members.keys ps).Nodup := fun ps hps => (wellFormed_of_lookup hw hps).1
      cases blamed_base hkeys (map_eq_error h) with
      | misread hm hp => exact ⟨_, _, ⟨[], _, _, .here _, .misread hm, rfl⟩, hp⟩
      -- the way to the fault starts with the step to this child
      | @dispatched place j hd hj =>
        obtain ⟨place', j', ⟨way, node, rest, hr, ho, rfl⟩, hp⟩ :=
          ih j hd.child (wellFormed_of_child hd.child hw) hj
        refine ⟨place ++ (way ++ rest), j',
          ⟨place ++ way, node, rest, .step hd hr, ho, (List.append_assoc ..).symm⟩, ?_⟩
        rw [hp, List.append_assoc]
    | bool b => cases b <;> cases h
    | _ =>
      cases h
      exact hnotSchema rfl rfl

end Promptwright.Validator
