import Promptwright.Proofs.Validator.Keywords
import Promptwright.Proofs.Validator.UniqueReading

/-!
# Which required names are enforced

The names under `required` are looked at one property after the other, so a name without a property
asks for nothing.  Nor does a name whose property has a schema that asks for nothing itself: the
validator of such a schema accepts the lack of a value as well.  All other required names must be
there.

## Key results

- `accepts_none_iff`: the schemas whose validators accept the lack of a value
- `accepts_object_iff`: what the validator of an object accepts
- `enforced_or_dispensable`: each name is enforced, or accepted objects may do without it
- `accepted_without_required_name`: an object that lacks a required name and is accepted
-/

namespace Promptwright.Validator

open Json (declared propertyNames child_induction)
open Json.Members (lookup)

/-! ## Schemas that ask for nothing -/

/-- The keyword with a list of which one member will do, if it decides. -/
def Decider.unionKeyword? : Decider → Option String
  | .anyOf => some "anyOf"
  | .oneOf => some "oneOf"
  | _ => none

/-- A schema that asks for nothing, not even for a value: every value will do, or at least one of
several schemas or types is such that every value will do. -/
inductive AsksNothing : Json → Prop
  | anything : AsksNothing (.bool true)
  | untyped {ms : Json.Members} (hd : decider ms = .nothing) : AsksNothing (.object ms)
  | unknownType {ms : Json.Members} {name : String} (hd : decider ms = .type)
      (h : lookup ms "type" = some (.string name)) (hu : name ∉ kinds) : AsksNothing (.object ms)
  | noTypes {ms : Json.Members} (hd : decider ms = .type)
      (h : lookup ms "type" = some (.array [])) : AsksNothing (.object ms)
  | someUnknownType {ms : Json.Members} {js : List Json} {name : String}
      (hd : decider ms = .type) (h : lookup ms "type" = some (.array js))
      (hname : .string name ∈ js) (hu : name ∉ kinds) : AsksNothing (.object ms)
  | noMembers {ms : Json.Members} {key : String} (hd : (decider ms).unionKeyword? = some key)
      (h : lookup ms key = some (.array [])) : AsksNothing (.object ms)
  | someMember {ms : Json.Members} {key : String} {js : List Json} {j : Json}
      (hd : (decider ms).unionKeyword? = some key) (h : lookup ms key = some (.array js))
      (hj : j ∈ js) (ha : AsksNothing j) : AsksNothing (.object ms)
  | allMembers {ms : Json.Members} {js : List Json} (hd : decider ms = .allOf)
      (h : lookup ms "allOf" = some (.array js)) (ha : ∀ j ∈ js, AsksNothing j) :
      AsksNothing (.object ms)

variable {M : Measures} {ms : Json.Members} {v : Validator}

/-- A node that a value decides about asks for that value. -/
theorem not_asksNothing_of_values (hd : decider ms = .const ∨ decider ms = .enum) :
    ¬ AsksNothing (.object ms) := by
  intro ha
  obtain hd | hd := hd <;> cases ha <;> simp_all [Decider.unionKeyword?]

/-- A node with a type asks for nothing if the type is unknown. -/
theorem asksNothing_type_iff {name : String} (hd : decider ms = .type)
    (h : lookup ms "type" = some (.string name)) :
    AsksNothing (.object ms) ↔ name ∉ kinds := by
  refine ⟨fun ha => ?_, .unknownType hd h⟩
  cases ha <;> simp_all [Decider.unionKeyword?]

/-- A node with several types asks for nothing if one of them is unknown, or there is none. -/
theorem asksNothing_types_iff {names : List String} (hd : decider ms = .type)
    (h : lookup ms "type" = some (.array (names.map .string))) :
    AsksNothing (.object ms) ↔ names = [] ∨ ∃ name ∈ names, name ∉ kinds := by
  constructor
  · intro ha
    cases ha with
    | noTypes _ h' => simp_all
    | someUnknownType _ h' hname hu =>
      obtain rfl := Json.array.inj (Option.some.inj (h.symm.trans h'))
      obtain ⟨name, hmem, hname⟩ := List.mem_map.mp hname
      exact .inr ⟨name, hmem, Json.string.inj hname ▸ hu⟩
    | _ => simp_all [Decider.unionKeyword?]
  · rintro (rfl | ⟨name, hname, hu⟩)
    · exact .noTypes hd h
    · exact .someUnknownType hd h (List.mem_map_of_mem hname) hu

/-- A union asks for nothing if some member does, or there is none. -/
theorem asksNothing_union_iff {key : String} {js : List Json}
    (hd : (decider ms).unionKeyword? = some key) (h : lookup ms key = some (.array js)) :
    AsksNothing (.object ms) ↔ js = [] ∨ ∃ j ∈ js, AsksNothing j := by
  constructor
  · intro ha
    cases ha with
    | noMembers hd' h' =>
      obtain rfl := Option.some.inj (hd.symm.trans hd')
      exact .inl (Json.array.inj (Option.some.inj (h.symm.trans h')))
    | someMember hd' h' hj ha =>
      obtain rfl := Option.some.inj (hd.symm.trans hd')
      obtain rfl := Json.array.inj (Option.some.inj (h.symm.trans h'))
      exact .inr ⟨_, hj, ha⟩
    | _ => simp_all [Decider.unionKeyword?]
  · rintro (rfl | ⟨j, hj, ha⟩)
    · exact .noMembers hd h
    · exact .someMember hd h hj ha

/-- An intersection asks for nothing if all of its members do. -/
theorem asksNothing_allOf_iff {js : List Json} (hd : decider ms = .allOf)
    (h : lookup ms "allOf" = some (.array js)) :
    AsksNothing (.object ms) ↔ ∀ j ∈ js, AsksNothing j := by
  refine ⟨fun ha => ?_, .allMembers hd h⟩
  cases ha <;> simp_all [Decider.unionKeyword?]

/-! ## The lack of a value -/

/-- Of the validators of a type, those of unknown types accept the lack of a value. -/
theorem accepts_none_of_typed_iff {name : String} (h : Typed ms name v) :
    Accepts M v none ↔ name ∉ kinds := by
  cases h with
  | unknown hu => exact iff_of_true trivial hu
  | null => exact iff_of_false nofun (not_not_intro (by decide))
  | boolean =>
    refine iff_of_false ?_ (not_not_intro (by decide))
    rintro ⟨_, h⟩
    cases h
  | _ =>
    refine iff_of_false ?_ (not_not_intro (by decide))
    rintro ⟨_, h, _⟩
    cases h

/-- Lists that belong to each other item by item are both empty, or both have an item of a kind that
the items share. -/
theorem empty_or_exists_iff {α β : Type} {R : α → β → Prop} {p : α → Prop} {q : β → Prop}
    {as : List α} {bs : List β} (h : List.Forall₂ R as bs)
    (hpq : ∀ a ∈ as, ∀ b, R a b → (q b ↔ p a)) :
    (bs = [] ∨ ∃ b ∈ bs, q b) ↔ as = [] ∨ ∃ a ∈ as, p a := by
  refine or_congr ⟨?_, ?_⟩ ⟨?_, ?_⟩
  · rintro rfl
    exact List.forall₂_nil_right_iff.mp h
  · rintro rfl
    exact List.forall₂_nil_left_iff.mp h
  · rintro ⟨b, hb, hq⟩
    obtain ⟨a, ha, hab⟩ := exists_of_mem_right h hb
    exact ⟨a, ha, (hpq a ha b hab).mp hq⟩
  · rintro ⟨a, ha, hp⟩
    obtain ⟨b, hb, hab⟩ := exists_of_mem_left h ha
    exact ⟨b, hb, (hpq a ha b hab).mpr hp⟩

/-- Some member of a union asks for nothing, or there is none. -/
theorem accepts_none_union_iff {js : List Json} {vs : List Validator}
    (hvs : List.Forall₂ Yields js vs)
    (ih : ∀ j ∈ js, ∀ v, Yields j v → (Accepts M v none ↔ AsksNothing j)) :
    Accepts M (Children.union vs) none ↔ js = [] ∨ ∃ j ∈ js, AsksNothing j := by
  rw [accepts_union_members_iff]
  exact empty_or_exists_iff hvs ih

/-- All members of an intersection ask for nothing. -/
theorem accepts_none_intersection_iff {js : List Json} {vs : List Validator}
    (hvs : List.Forall₂ Yields js vs)
    (ih : ∀ j ∈ js, ∀ v, Yields j v → (Accepts M v none ↔ AsksNothing j)) :
    Accepts M (Children.intersection vs) none ↔ ∀ j ∈ js, AsksNothing j := by
  rw [accepts_intersection_members_iff]
  constructor
  · intro hx j hj
    obtain ⟨v, hv, hyields⟩ := exists_of_mem_left hvs hj
    exact (ih j hj v hyields).mp (hx v hv)
  · intro ha v hv
    obtain ⟨j, hj, hyields⟩ := exists_of_mem_right hvs hv
    exact (ih j hj v hyields).mpr (ha j hj)

/-- Some type of a list is unknown, or there is none. -/
theorem accepts_none_types_iff {names : List String} {vs : List Validator}
    (hvs : List.Forall₂ (Typed ms) names vs) :
    Accepts M (ofTypes vs) none ↔ names = [] ∨ ∃ name ∈ names, name ∉ kinds := by
  rw [accepts_ofTypes_iff]
  exact empty_or_exists_iff hvs fun _ _ _ h => accepts_none_of_typed_iff h

/-- What decided about a node accepts the lack of a value if the node asks for nothing. -/
theorem accepts_none_of_decision_iff (h : Decision ms (decider ms) v)
    (ih : Json.Below (fun j => ∀ v, Yields j v → (Accepts M v none ↔ AsksNothing j)) ms) :
    Accepts M v none ↔ AsksNothing (.object ms) := by
  -- a constant and a choice need a value, and the other keywords leave it to their members and
  -- types
  generalize hd : decider ms = d at h
  cases h with
  | const _ _ =>
    refine iff_of_false ?_ (not_asksNothing_of_values (.inl hd))
    rintro ⟨-, _, h, -⟩
    cases h
  | enum _ hscalar =>
    refine iff_of_false (fun hx => ?_) (not_asksNothing_of_values (.inr hd))
    obtain ⟨_, h, -⟩ := (accepts_ofValues_iff hscalar).mp hx
    cases h
  | anyOf hjs hvs =>
    rw [accepts_none_union_iff hvs fun j hj => ih j (.member (by decide) hjs hj)]
    exact (asksNothing_union_iff (by rw [hd]; rfl) hjs).symm
  | oneOf hjs hvs =>
    rw [accepts_none_union_iff hvs fun j hj => ih j (.member (by decide) hjs hj)]
    exact (asksNothing_union_iff (by rw [hd]; rfl) hjs).symm
  | allOf hjs hvs =>
    rw [accepts_none_intersection_iff hvs fun j hj => ih j (.member (by decide) hjs hj)]
    exact (asksNothing_allOf_iff hd hjs).symm
  | type hname htyped =>
    rw [accepts_none_of_typed_iff htyped]
    exact (asksNothing_type_iff hd hname).symm
  | types hnames hvs =>
    rw [accepts_none_types_iff hvs]
    exact (asksNothing_types_iff hd hnames).symm
  | nothing => exact iff_of_true trivial (.untyped hd)

/-- The validator of a schema accepts the lack of a value exactly if the schema asks for nothing. -/
theorem accepts_none_iff {schema : Json} (hv : Yields schema v) :
    Accepts M v none ↔ AsksNothing schema := by
  induction schema using child_induction generalizing v with
  | step schema ih =>
    match schema with
    | .object ms =>
      obtain ⟨w, hw, rfl⟩ := yields_object hv
      rw [accepts_dressed_iff, accepts_none_of_decision_iff hw fun c hc v hv => ih c hc hv]
      -- null is a value, so `nullable` makes no difference
      exact or_iff_right fun h => nomatch h.2
    | .bool true =>
      obtain ⟨path, hv⟩ := hv
      cases hv
      exact iff_of_true trivial .anything
    | .bool false =>
      obtain ⟨path, hv⟩ := hv
      cases hv
      exact iff_of_false nofun nofun
    | .null => cases isSchema_of_yields hv
    | .number _ => cases isSchema_of_yields hv
    | .string _ => cases isSchema_of_yields hv
    | .array _ => cases isSchema_of_yields hv

/-! ## Objects -/

/-- A name that objects must have: it is required, and some property of the name has a schema that
asks for something. -/
def Enforced (ms : Json.Members) (name : String) : Prop :=
  (∃ js, lookup ms "required" = some (.array js) ∧ .string name ∈ js) ∧
    ∃ schema, (name, schema) ∈ declared ms ∧ ¬ AsksNothing schema

/-- The members of an object without those of a name. -/
def without (name : String) (xs : Json.Members) : Json.Members := xs.filter fun m => m.1 ≠ name

/-- The name that is left out is gone, and all others are as they were. -/
theorem lookup_without (name key : String) (xs : Json.Members) :
    lookup (without name xs) key = if key = name then none else lookup xs key := by
  induction xs with
  | nil => simp [without, lookup]
  | cons m xs ih =>
    obtain ⟨k, y⟩ := m
    rw [without] at ih ⊢
    by_cases hk : k = name
    · rw [List.filter_cons_of_neg (by simpa using hk), ih, lookup_cons]
      by_cases hkey : key = name
      · rw [if_pos hkey, if_pos hkey]
      · rw [if_neg hkey, if_neg hkey, if_neg fun h => hkey (h.symm.trans hk)]
    · rw [List.filter_cons_of_pos (by simpa using hk), lookup_cons, ih, lookup_cons]
      by_cases hkey : k = key
      · rw [if_pos hkey, if_pos hkey, if_neg fun h => hk (hkey.trans h)]
      · rw [if_neg hkey, if_neg hkey]

/-- The validator of the members of an object: the properties that are declared, each with whether
its name is among the required ones, and what else is allowed. -/
inductive ObjectOf (ms : Json.Members) : Validator → Prop
  | intro {path : SchemaPath} {names : List String} {qs : List (String × Validator)}
      {rest : Rest Validator} (hn : requiredNames path ms = .ok names)
      (hq : List.Forall₂ (fun p q => p.1 = q.1 ∧ Yields p.2 q.2) (declared ms) qs) :
      ObjectOf ms (.object (qs.map fun (name, v) => ⟨name, names.contains name, v⟩) rest)

/-- The validator of the type object is that of the members. -/
theorem objectOf_of_typed {name : String} (hname : name = "object") (h : Typed ms name v) :
    ObjectOf ms v := by
  cases h with
  | object _ hn hq _ => exact .intro hn hq
  | unknown hu => exact (hu (hname ▸ by decide)).elim
  | _ => exact absurd hname (by decide)

/-- A node of type object whose type decides yields the validator of its members, up to what
`nullable` and `description` add. -/
theorem objectOf_of_yields (hd : decider ms = .type)
    (ht : lookup ms "type" = some (.string "object")) (hv : Yields (.object ms) v) :
    ∃ w, ObjectOf ms w ∧ v = dressed ms w := by
  obtain ⟨w, hw, rfl⟩ := yields_object hv
  refine ⟨w, ?_, rfl⟩
  rw [hd] at hw
  cases hw with
  | type h htyped =>
    rw [ht] at h
    cases h
    exact objectOf_of_typed rfl htyped
  | types h _ =>
    rw [ht] at h
    cases h

/-- Objects are accepted by a node if what decided accepts them. -/
theorem accepts_dressed_object_iff {xs : Json.Members} :
    Accepts M (dressed ms v) (some (.object xs)) ↔ Accepts M v (some (.object xs)) :=
  accepts_dressed_iff.trans (or_iff_right fun h => nomatch h.2)

/-- An accepted object has the names that are enforced. -/
theorem isSome_lookup_of_enforced {name : String} {xs : Json.Members} (hv : ObjectOf ms v)
    (hname : Enforced ms name) (hx : Accepts M v (some (.object xs))) :
    (lookup xs name).isSome = true := by
  obtain ⟨⟨js, hjs, hmem⟩, schema, hdeclared, hasks⟩ := hname
  obtain @⟨path, names, qs, rest, hn, hq⟩ := hv
  obtain ⟨xs', hxs, hprops, -⟩ := hx
  cases hxs
  -- the names that the generator reads are those of the list
  have hreq : name ∈ names := by
    obtain ⟨hnone, -⟩ | hnames := requiredNames_eq_ok hn
    · rw [hnone] at hjs
      cases hjs
    · obtain rfl := Json.array.inj (Option.some.inj (hnames.symm.trans hjs))
      obtain ⟨name', hmem, hname⟩ := List.mem_map.mp hmem
      exact Json.string.inj hname ▸ hmem
  obtain ⟨⟨name', w⟩, hqs, hpq, hyields⟩ := exists_of_mem_left hq hdeclared
  obtain rfl : name = name' := hpq
  have hprop := (acceptsProperties_iff.mp hprops _ (List.mem_map_of_mem hqs)).2
  rw [Option.isSome_iff_ne_none]
  intro hlack
  obtain h | h := hprop hlack
  · simp [hreq] at h
  · exact hasks ((accepts_none_iff hyields).mp h)

/-- An accepted object may do without a name that is not enforced. -/
theorem accepts_without_of_not_enforced {name : String} {xs : Json.Members}
    (hv : ObjectOf ms v) (hname : ¬ Enforced ms name)
    (hx : Accepts M v (some (.object xs))) : Accepts M v (some (.object (without name xs))) := by
  obtain @⟨path, names, qs, rest, hn, hq⟩ := hv
  obtain ⟨xs', hxs, hprops, hrest⟩ := hx
  cases hxs
  rw [acceptsProperties_iff] at hprops
  refine ⟨_, rfl, acceptsProperties_iff.mpr fun p hp => ?_, ?_⟩
  · obtain ⟨⟨key, w⟩, hqs, rfl⟩ := List.mem_map.mp hp
    obtain ⟨hgiven, hlack⟩ := hprops _ hp
    simp only [lookup_without]
    by_cases hkey : key = name
    · -- the name is required in vain, or not required at all
      subst hkey
      refine ⟨fun y hy => by simp at hy, fun _ => ?_⟩
      by_cases hreq : key ∈ names
      · obtain ⟨⟨key', schema⟩, hdeclared, hpq, hyields⟩ := exists_of_mem_right hq hqs
        obtain rfl : key' = key := hpq
        refine .inr ((accepts_none_iff hyields).mpr ?_)
        by_contra hasks
        refine hname ⟨?_, schema, hdeclared, hasks⟩
        obtain ⟨-, rfl⟩ | hnames := requiredNames_eq_ok hn
        · cases hreq
        · exact ⟨_, hnames, List.mem_map_of_mem hreq⟩
      · exact .inl (by simpa using hreq)
    · simp only [if_neg hkey]
      exact ⟨hgiven, hlack⟩
  · -- what is left of the members is still allowed
    have hsub : ∀ m ∈ without name xs, m ∈ xs := fun m hm => List.mem_of_mem_filter hm
    cases rest with
    | free => exact trivial
    | nothing => exact fun m hm => hrest m (hsub m hm)
    | each w => exact fun m hm hu => hrest m (hsub m hm) hu

/-! ## Schemas -/

/-- In every reading of the text of the validator of a node of type object, every name is either
enforced, so that each accepted object has it, or dispensable, so that each accepted object is
accepted without it as well.  Enforced are the required names that are declared with a schema that
asks for something. -/
theorem enforced_or_dispensable (M : Measures) (hproper : (Json.object ms).Proper)
    (hd : decider ms = .type) (ht : lookup ms "type" = some (.string "object"))
    (hv : ofSchema (.object ms) = .ok v) :
    (∃ P, Zod.Reads M v.source P) ∧ ∀ P, Zod.Reads M v.source P → ∀ name,
      (Enforced ms name → ∀ xs, lookup xs name = none → ¬ P (some (.object xs))) ∧
      (¬ Enforced ms name → ∀ xs, P (some (.object xs)) → P (some (.object (without name xs)))) := by
  obtain ⟨hread, hiff⟩ := Zod.reads_source_of_yields (M := M) hproper ⟨[], hv⟩
  obtain ⟨w, hw, rfl⟩ := objectOf_of_yields hd ht ⟨[], hv⟩
  refine ⟨hread, fun P hP name => ?_⟩
  -- what `nullable` and `description` add makes no difference for objects
  have hobject : ∀ xs, P (some (.object xs)) ↔ Accepts M w (some (.object xs)) :=
    fun xs => (hiff P hP _).trans accepts_dressed_object_iff
  refine ⟨fun hname xs hlack hx => ?_, fun hname xs hx => ?_⟩
  · have hsome := isSome_lookup_of_enforced hw hname ((hobject xs).mp hx)
    rw [hlack] at hsome
    cases hsome
  · exact (hobject _).mpr (accepts_without_of_not_enforced hw hname ((hobject xs).mp hx))

/-- Users with a name and an id, of which only the name is declared. -/
def users : Json.Members := [
  ("type", .string "object"),
  ("properties", .object [("name", .object [("type", .string "string")])]),
  ("required", .strings ["name", "id"])]

/-- The schema has no numbers at all. -/
theorem proper_users : (Json.object users).Proper := by
  simp [users, Json.Proper, Json.ProperMembers, Json.ProperItems, Json.strings]

/-- A user without an id is accepted in every reading, although the id is required. -/
theorem accepted_without_required_name :
    (∃ js, lookup users "required" = some (.array js) ∧ .string "id" ∈ js) ∧
      ∃ v, ofSchema (.object users) = .ok v ∧ (∃ P, Zod.Reads .exact v.source P) ∧
        ∀ P, Zod.Reads .exact v.source P → P (some (.object [("name", .string "Ada")])) := by
  obtain ⟨hread, hiff⟩ := Zod.reads_source_of_yields (M := .exact) proper_users
    (v := .object [⟨"name", true, .text []⟩] .free) ⟨[], rfl⟩
  refine ⟨⟨_, rfl, by simp⟩, _, rfl, hread, fun P hP => (hiff P hP _).mpr ⟨_, rfl, ?_, trivial⟩⟩
  exact ⟨⟨"Ada", rfl, nofun⟩, trivial⟩

/-- The name of a user is enforced, and the id is dispensable. -/
theorem enforced_or_dispensable_users :
    (Json.object users).Proper ∧ decider users = .type ∧
      lookup users "type" = some (.string "object") ∧
      Enforced users "name" ∧ ¬ Enforced users "id" ∧
      ∃ v, ofSchema (.object users) = .ok v ∧ (∃ P, Zod.Reads .exact v.source P) ∧
        ∀ P, Zod.Reads .exact v.source P → ∀ name,
          (Enforced users name → ∀ xs, lookup xs name = none → ¬ P (some (.object xs))) ∧
          (¬ Enforced users name → ∀ xs, P (some (.object xs)) →
            P (some (.object (without name xs)))) := by
  refine ⟨proper_users, rfl, rfl, ⟨⟨_, rfl, by simp⟩, _, List.mem_singleton.mpr rfl, ?_⟩, ?_, _,
    rfl, enforced_or_dispensable .exact proper_users rfl rfl rfl⟩
  · have htext : decider [("type", .string "string")] = .type := rfl
    rw [asksNothing_type_iff htext rfl]
    exact not_not_intro (by decide)
  · rintro ⟨-, schema, hdeclared, -⟩
    have hname : ("id", schema) ∈ [("name", Json.object [("type", .string "string")])] := hdeclared
    simp at hname

end Promptwright.Validator
