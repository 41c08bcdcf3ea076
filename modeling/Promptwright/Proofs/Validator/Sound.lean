import Promptwright.Proofs.Validator.Covered
import Promptwright.Proofs.Validator.Keywords
import Promptwright.Proofs.Validator.UniqueReading

/-!
# Validators accept no more than covered schemas

A validator that is read from a covered schema accepts only what satisfies the schema, and never
the lack of a value: a property that is required must be there.  The induction is on the schemas
below a node, and both facts are needed together, the second one for required properties.

## Key results

- `soundFor_of_covered`: no more is accepted
- `ofSchema_sound`: the validator of a covered schema
-/

namespace Promptwright.Validator

open Json (Below Everywhere declared propertyNames child_induction)
open Json.Members (Only lookup)
open Measures (Demands KindKeywords PartKeywords CombinedKeywords ValueKeywords OtherKeywords)

variable {M : Measures} {ms : Json.Members} {x : Json} {v : Validator} {keys : List String}

/-- A validator accepts only what satisfies a schema, and not the lack of a value. -/
structure SoundFor (M : Measures) (schema : Json) (v : Validator) : Prop where
  satisfies : ∀ x, Accepts M v (some x) → M.Satisfies schema x
  present : ¬ Accepts M v none

/-- All validators that a schema yields are sound for it. -/
def Sound (M : Measures) (schema : Json) : Prop := ∀ v, Yields schema v → SoundFor M schema v

/-! ## Keywords that are not there -/

/-- Keywords that are not there demand no value. -/
theorem valueKeywords_of_only (h : Only keys ms) (hc : "const" ∉ keys) (he : "enum" ∉ keys)
    (ht : "type" ∉ keys) : M.ValueKeywords ms x where
  const _ hj := (h.lookup_ne hc hj).elim
  enum _ hj := (h.lookup_ne he hj).elim
  type _ hj := (h.lookup_ne ht hj).elim

/-- Keywords that are not there compare with no schemas. -/
theorem combinedKeywords_of_only (h : Only keys ms) (ha : "anyOf" ∉ keys) (ho : "oneOf" ∉ keys)
    (hl : "allOf" ∉ keys) : M.CombinedKeywords ms x where
  anyOf _ hj := (h.lookup_ne ha hj).elim
  oneOf _ hj := (h.lookup_ne ho hj).elim
  allOf _ hj := (h.lookup_ne hl hj).elim

/-- Keywords that are not there demand nothing of a type. -/
theorem kindKeywords_of_only (h : Only keys ms) (hk : ∀ key ∈ typeKeywords, key ∉ keys) :
    M.KindKeywords ms x := by
  cases x with
  | string s =>
    exact ⟨fun _ hj => (h.lookup_ne (hk "minLength" (by decide)) hj).elim,
      fun _ hj => (h.lookup_ne (hk "maxLength" (by decide)) hj).elim⟩
  | number n =>
    exact ⟨fun _ hj => (h.lookup_ne (hk "minimum" (by decide)) hj).elim,
      fun _ hj => (h.lookup_ne (hk "exclusiveMinimum" (by decide)) hj).elim,
      fun _ hj => (h.lookup_ne (hk "maximum" (by decide)) hj).elim,
      fun _ hj => (h.lookup_ne (hk "exclusiveMaximum" (by decide)) hj).elim,
      fun _ hj => (h.lookup_ne (hk "multipleOf" (by decide)) hj).elim⟩
  | array ys =>
    exact ⟨fun _ hj => (h.lookup_ne (hk "minItems" (by decide)) hj).elim,
      fun _ hj => (h.lookup_ne (hk "maxItems" (by decide)) hj).elim⟩
  | object xs => exact fun _ hj => (h.lookup_ne (hk "required" (by decide)) hj).elim
  | null => exact trivial
  | bool _ => exact trivial

/-- Keywords that are not there demand nothing of parts. -/
theorem partKeywords_of_only (h : Only keys ms) (hk : ∀ key ∈ typeKeywords, key ∉ keys) :
    M.PartKeywords ms x where
  items _ hj := (h.lookup_ne (hk "items" (by decide)) hj).elim
  inOrder _ hj := (h.lookup_ne (hk "items" (by decide)) hj).elim
  properties _ hj := (h.lookup_ne (hk "properties" (by decide)) hj).elim
  additional _ hj := (h.lookup_ne (hk "additionalProperties" (by decide)) hj).elim

/-- A value without parts meets all demands on parts. -/
theorem partKeywords_of_not_composite (h : x.isComposite = false) : M.PartKeywords ms x where
  items _ _ _ _ hx := by
    rw [hx] at h
    cases h
  inOrder _ _ _ hx := by
    rw [hx] at h
    cases h
  properties _ _ _ hx := by
    rw [hx] at h
    cases h
  additional _ _ _ _ hx := by
    rw [hx] at h
    cases h

/-- Known keywords are all that there is to demand. -/
theorem otherKeywords_of_only (h : Only keys ms) (hk : ∀ key ∈ keys, key ∈ Measures.knownKeywords) :
    M.OtherKeywords ms x :=
  fun m hm hu => (hu (hk m.1 (h m hm))).elim

/-- Where no type is named, values and other schemas are all that matters. -/
theorem demands_of_only (h : Only keys ms) (hk : ∀ key ∈ typeKeywords, key ∉ keys)
    (hu : ∀ key ∈ keys, key ∈ Measures.knownKeywords) (hv : M.ValueKeywords ms x)
    (hc : M.CombinedKeywords ms x) : M.Demands ms x :=
  ⟨hv, kindKeywords_of_only h hk, otherKeywords_of_only h hu, hc, partKeywords_of_only h hk⟩

/-! ## Types -/

/-- A value of one of the types that a node names is what `type` demands. -/
theorem NamesTypes.keyword {names : List String} (types : NamesTypes ms names) {name : String}
    (hname : name ∈ names) (hx : M.HasType name x) {j : Json} (hj : lookup ms "type" = some j) :
    M.TypeKeyword j x := by
  cases types with
  | one h _ =>
    rw [h] at hj
    cases hj
    rw [List.mem_singleton.mp hname] at hx
    exact hx
  | several h _ _ =>
    rw [h] at hj
    cases hj
    refine ⟨.string name, List.mem_map_of_mem hname, fun s hs => ?_⟩
    cases hs
    exact hx

/-- An object that is accepted has the required names. -/
theorem requiredKeyword_of_accepts {path : SchemaPath} {names : List String} {xs : Json.Members}
    {qs : List (String × Validator)} (shape : TypeShape ms)
    (hpresent : ∀ q ∈ qs, ¬ Accepts M q.2 none) (hn : requiredNames path ms = .ok names)
    (hq : List.Forall₂ (fun p q => p.1 = q.1 ∧ Yields p.2 q.2) (declared ms) qs)
    (hx : AcceptsProperties M (qs.map fun (name, v) => ⟨name, names.contains name, v⟩) xs) :
    Measures.RequiredKeyword ms xs := by
  intro js hjs name hname
  obtain ⟨hnone, -⟩ | hnames := requiredNames_eq_ok hn
  · rw [hnone] at hjs
    cases hjs
  obtain rfl : names.map .string = js := Json.array.inj (Option.some.inj (hnames.symm.trans hjs))
  have hname : name ∈ names := by
    obtain ⟨name', hname', h⟩ := List.mem_map.mp hname
    exact Json.string.inj h ▸ hname'
  have hdeclared : name ∈ propertyNames ms := by
    obtain ⟨names', h, hdeclared⟩ := shape.required _ hjs
    rw [(List.map_inj_right fun _ _ => Json.string.inj).mp (Json.array.inj h)] at hname
    exact hdeclared name hname
  -- the name is declared, so there is a property that must be there
  obtain ⟨p, hp, rfl⟩ := List.mem_map.mp hdeclared
  obtain ⟨q, hqs, hpq, -⟩ := exists_of_mem_left hq hp
  have hprop := (acceptsProperties_iff.mp hx _ (List.mem_map_of_mem hqs)).2
  rw [Option.isSome_iff_ne_none]
  intro hnone
  rw [hpq] at hnone hname
  obtain h | h := hprop hnone
  · simp [hname] at h
  · exact hpresent q hqs h

/-- The parts of an object that is accepted satisfy the schemas below. -/
theorem partKeywords_of_accepts {names : List String} {xs : Json.Members} {rest : Rest Validator}
    {qs : List (String × Validator)}
    (ih : Below (Sound M) ms)
    (hq : List.Forall₂ (fun p q => p.1 = q.1 ∧ Yields p.2 q.2) (declared ms) qs)
    (hr : Additional ms rest)
    (hx : AcceptsProperties M (qs.map fun (name, v) => ⟨name, names.contains name, v⟩) xs)
    (hxr : AcceptsRest M rest (propertyNames ms) xs) : M.PartKeywords ms (.object xs) where
  items _ _ _ _ h := by cases h
  inOrder _ _ _ h := by cases h
  -- a property that is there is accepted, so the schema that declares it is satisfied
  properties ps hps xs' h p hp y hy := by
    cases h
    have hdeclared : declared ms = ps := by rw [declared, hps]
    obtain ⟨q, hqs, hpq, hyields⟩ := exists_of_mem_left hq (hdeclared ▸ hp)
    rw [hpq] at hy
    refine (ih p.2 (.property hps hp) q.2 hyields).satisfies y ?_
    exact (acceptsProperties_iff.mp hx _ (List.mem_map_of_mem hqs)).1 y hy
  additional j hj hs xs' h m hm hu := by
    cases h
    cases hr with
    | each ho hv =>
      rw [ho] at hj
      cases hj
      exact (ih _ (.additional ho) _ hv).satisfies m.2 (hxr m hm hu)
    | nothing ho => exact (hu (hxr m hm)).elim
    -- no object and not false: the schema is true, or none at all
    | free hf ho =>
      cases j with
      | bool b =>
        cases b with
        | true => exact Measures.satisfies_bool_iff.mpr rfl
        | false => exact (hf hj).elim
      | object os => exact (ho os hj).elim
      | _ => cases hs

/-- A validator of a known type accepts only values of the type that meet the demands. -/
theorem satisfies_of_typed (shape : TypeShape ms)
    (ih : Below (Sound M) ms) {name : String}
    (hk : name ∈ kinds) (h : Typed ms name v) (hx : Accepts M v (some x)) :
    M.HasType name x ∧ M.KindKeywords ms x ∧ M.PartKeywords ms x := by
  -- by the type; each condition on the value is a keyword, and its parts are left to `ih`
  cases h with
  | text hcs =>
    obtain ⟨s, hs, hc⟩ := hx
    cases hs
    exact ⟨⟨s, rfl⟩, ((forall_textChecks_iff hcs s).mp hc).1, partKeywords_of_not_composite rfl⟩
  | number hcs =>
    obtain ⟨n, hn, -, hc⟩ := hx
    cases hn
    exact ⟨⟨n, rfl⟩, (forall_numberChecks_iff hcs n).mp hc, partKeywords_of_not_composite rfl⟩
  | integer hcs =>
    obtain ⟨n, hn, hw, hc⟩ := hx
    cases hn
    exact ⟨⟨n, rfl, hw rfl⟩, (forall_numberChecks_iff hcs n).mp hc,
      partKeywords_of_not_composite rfl⟩
  | boolean =>
    obtain ⟨b, hb⟩ := hx
    cases hb
    exact ⟨⟨b, rfl⟩, trivial, partKeywords_of_not_composite rfl⟩
  | null =>
    cases hx
    exact ⟨rfl, trivial, partKeywords_of_not_composite rfl⟩
  | list hi hcs =>
    obtain ⟨ys, hys, -, hc⟩ := hx
    cases hys
    refine ⟨⟨ys, rfl⟩, (forall_sizeChecks_iff hcs ys.length).mp hc, ⟨?_, ?_, nofun, nofun⟩⟩
    · intro j hj
      rw [hi] at hj
      cases hj
    · intro js hj
      rw [hi] at hj
      cases hj
  | each hi hj hv hcs =>
    obtain ⟨ys, hys, hitems, hc⟩ := hx
    cases hys
    refine ⟨⟨ys, rfl⟩, (forall_sizeChecks_iff hcs ys.length).mp hc, ⟨?_, ?_, nofun, nofun⟩⟩
    · intro j hj' _ ys' hys' y hy
      rw [hi] at hj'
      cases hj'
      cases hys'
      exact (ih _ (.items hi hj) _ hv).satisfies y (hitems y hy)
    · intro js hj'
      exact (shape.items js hj').elim
  | inOrder hi _ _ => exact (shape.items _ hi).elim
  | object hp hn hq hr =>
    obtain ⟨xs, hxs, hprops, hrest⟩ := hx
    cases hxs
    rw [map_name_eq_propertyNames hq] at hrest
    refine ⟨⟨xs, rfl⟩, requiredKeyword_of_accepts shape (fun q hqs => ?_) hn hq hprops,
      partKeywords_of_accepts ih hq hr hprops hrest⟩
    obtain ⟨p, hp, -, hyields⟩ := exists_of_mem_right hq hqs
    exact (ih p.2 (.of_declared hp) q.2 hyields).present
  | unknown hu => exact (hu hk).elim

/-- A validator of a known type does not accept the lack of a value. -/
theorem not_accepts_none_of_typed {name : String} (hk : name ∈ kinds) (h : Typed ms name v) :
    ¬ Accepts M v none := by
  cases h with
  | unknown hu => exact (hu hk).elim
  | null => exact nofun
  | boolean =>
    rintro ⟨_, h⟩
    cases h
  | _ =>
    rintro ⟨_, h, _⟩
    cases h

/-! ## Nodes -/

/-- A validator accepts only what meets the demands of a node, and not the lack of a value. -/
structure SoundForNode (M : Measures) (ms : Json.Members) (v : Validator) : Prop where
  demands : ∀ x, Accepts M v (some x) → M.Demands ms x
  present : ¬ Accepts M v none

/-- One value. -/
theorem soundForNode_of_const (keys : Only ("const" :: annotations) ms) {j : Json}
    (hj : lookup ms "const" = some j) : SoundForNode M ms (.literal j) where
  demands x hx := by
    obtain ⟨-, y, hy, hx⟩ := hx
    cases hy
    refine demands_of_only keys (by decide) (by decide) ⟨?_, ?_, ?_⟩
      (combinedKeywords_of_only keys (by decide) (by decide) (by decide))
    · intro j' hj'
      rw [hj] at hj'
      cases hj'
      exact hx
    · exact fun js hjs => (keys.lookup_ne (by decide) hjs).elim
    · exact fun j hj => (keys.lookup_ne (by decide) hj).elim
  present := by
    rintro ⟨-, y, hy, -⟩
    cases hy

/-- One of some values. -/
theorem soundForNode_of_enum (keys : Only ("enum" :: annotations) ms) {js : List Json}
    (hjs : lookup ms "enum" = some (.array js)) (hscalar : ∀ j ∈ js, j.isComposite = false) :
    SoundForNode M ms (ofValues js) where
  demands x hx := by
    obtain ⟨y, hy, hx⟩ := (accepts_ofValues_iff hscalar).mp hx
    cases hy
    refine demands_of_only keys (by decide) (by decide) ⟨?_, ?_, ?_⟩
      (combinedKeywords_of_only keys (by decide) (by decide) (by decide))
    · exact fun j hj => (keys.lookup_ne (by decide) hj).elim
    · intro js' hjs'
      rw [hjs] at hjs'
      cases hjs'
      exact hx
    · exact fun j hj => (keys.lookup_ne (by decide) hj).elim
  present hx := by
    obtain ⟨y, hy, -⟩ := (accepts_ofValues_iff hscalar).mp hx
    cases hy

/-- Any of some schemas. -/
theorem soundForNode_of_anyOf (keys : Only ("anyOf" :: annotations) ms) {js : List Json}
    (hjs : lookup ms "anyOf" = some (.array js)) (hne : js ≠ [])
    (ih : Below (Sound M) ms) {vs : List Validator}
    (hvs : List.Forall₂ Yields js vs) : SoundForNode M ms (Children.union vs) := by
  have hvs_ne : vs ≠ [] := by
    rintro rfl
    exact hne (List.forall₂_nil_right_iff.mp hvs)
  -- an accepted value is accepted by the validator of one member, which is sound
  have hmember : ∀ x, Accepts M (Children.union vs) x →
      ∃ j ∈ js, ∃ v, SoundFor M j v ∧ Accepts M v x := by
    intro x hx
    obtain ⟨v, hv, hx⟩ := (accepts_union_members_iff.mp hx).resolve_left hvs_ne
    obtain ⟨j, hj, hyields⟩ := exists_of_mem_right hvs hv
    exact ⟨j, hj, v, ih j (.member (by decide) hjs hj) v hyields, hx⟩
  constructor
  · intro x hx
    obtain ⟨j, hj, v, hsound, hx⟩ := hmember _ hx
    refine demands_of_only keys (by decide) (by decide)
      (valueKeywords_of_only keys (by decide) (by decide) (by decide)) ⟨?_, ?_, ?_⟩
    · intro js' hjs'
      rw [hjs] at hjs'
      cases hjs'
      exact ⟨j, hj, hsound.satisfies x hx⟩
    · exact fun js hjs => (keys.lookup_ne (by decide) hjs).elim
    · exact fun js hjs => (keys.lookup_ne (by decide) hjs).elim
  · intro hx
    obtain ⟨j, -, v, hsound, hx⟩ := hmember _ hx
    exact hsound.present hx

/-- All of some schemas. -/
theorem soundForNode_of_allOf (keys : Only ("allOf" :: annotations) ms) {js : List Json}
    (hjs : lookup ms "allOf" = some (.array js)) (hne : js ≠ [])
    (ih : Below (Sound M) ms) {vs : List Validator}
    (hvs : List.Forall₂ Yields js vs) : SoundForNode M ms (Children.intersection vs) := by
  -- an accepted value is accepted by the validators of all members, each of which is sound
  have hmember : ∀ x, Accepts M (Children.intersection vs) x →
      ∀ j ∈ js, ∃ v, SoundFor M j v ∧ Accepts M v x := by
    intro x hx j hj
    obtain ⟨v, hv, hyields⟩ := exists_of_mem_left hvs hj
    exact ⟨v, ih j (.member (by decide) hjs hj) v hyields,
      accepts_intersection_members_iff.mp hx v hv⟩
  constructor
  · intro x hx
    refine demands_of_only keys (by decide) (by decide)
      (valueKeywords_of_only keys (by decide) (by decide) (by decide)) ⟨?_, ?_, ?_⟩
    · exact fun js hjs => (keys.lookup_ne (by decide) hjs).elim
    · exact fun js hjs => (keys.lookup_ne (by decide) hjs).elim
    · intro js' hjs' j hj
      rw [hjs] at hjs'
      cases hjs'
      obtain ⟨v, hsound, hx⟩ := hmember _ hx j hj
      exact hsound.satisfies x hx
  · intro hx
    obtain ⟨j, hj⟩ := List.exists_mem_of_ne_nil _ hne
    obtain ⟨v, hsound, hx⟩ := hmember _ hx j hj
    exact hsound.present hx

/-- Any of some known types. -/
theorem soundForNode_of_types (keys : Only (typeKeywords ++ annotations) ms)
    (shape : TypeShape ms) {names : List String} (types : NamesTypes ms names)
    (ih : Below (Sound M) ms) {vs : List Validator}
    (hvs : List.Forall₂ (Typed ms) names vs) : SoundForNode M ms (ofTypes vs) := by
  have hvs_ne : vs ≠ [] := by
    rintro rfl
    exact types.ne_nil (List.forall₂_nil_right_iff.mp hvs)
  -- an accepted value has one of the types, and meets the demands for it
  have hmember : ∀ x, Accepts M (ofTypes vs) x →
      ∃ name ∈ names, ∃ v, Typed ms name v ∧ Accepts M v x := by
    intro x hx
    obtain ⟨v, hv, hx⟩ := (accepts_ofTypes_iff.mp hx).resolve_left hvs_ne
    obtain ⟨name, hname, htyped⟩ := exists_of_mem_right hvs hv
    exact ⟨name, hname, v, htyped, hx⟩
  constructor
  · intro x hx
    obtain ⟨name, hname, v, htyped, hx⟩ := hmember _ hx
    obtain ⟨htype, hkind, hparts⟩ := satisfies_of_typed shape ih (types.known name hname) htyped hx
    refine ⟨⟨?_, ?_, ?_⟩, hkind, otherKeywords_of_only keys (by decide),
      combinedKeywords_of_only keys (by decide) (by decide) (by decide), hparts⟩
    · exact fun j hj => (keys.lookup_ne (by decide) hj).elim
    · exact fun js hjs => (keys.lookup_ne (by decide) hjs).elim
    · exact fun j hj => types.keyword hname htype hj
  · intro hx
    obtain ⟨name, hname, v, htyped, hx⟩ := hmember _ hx
    exact not_accepts_none_of_typed (types.known name hname) htyped hx

/-- What decides about a covered node accepts only what meets its demands. -/
theorem soundForNode_of_decision (hn : CoveredNode (.object ms))
    (h : Decision ms (decider ms) v)
    (ih : Below (Sound M) ms) : SoundForNode M ms v := by
  -- the form of the node leaves one way in which it can have been decided
  cases hn with
  | const keys hj _ =>
    rw [h.eq_literal hj]
    exact soundForNode_of_const keys hj
  | enum keys hjs hscalar =>
    rw [h.eq_ofValues keys hjs]
    exact soundForNode_of_enum keys hjs hscalar
  | anyOf keys hjs hne =>
    obtain ⟨vs, hvs, rfl⟩ := h.eq_union keys hjs
    exact soundForNode_of_anyOf keys hjs hne ih hvs
  | allOf keys hjs hne =>
    obtain ⟨vs, hvs, rfl⟩ := h.eq_intersection keys hjs
    exact soundForNode_of_allOf keys hjs hne ih hvs
  | typed keys shape =>
    obtain ⟨names, types⟩ := shape.types
    obtain ⟨vs, hvs, rfl⟩ := h.eq_ofTypes keys types
    exact soundForNode_of_types keys shape types ih hvs

/-- The validator of a covered schema accepts no more than the schema, and not the lack of a
value. -/
theorem soundFor_of_covered {schema : Json} (h : Covered schema) (hv : Yields schema v) :
    SoundFor M schema v := by
  induction schema using child_induction generalizing v with
  | step schema ih =>
    have hn := h.here
    have ih := fun c hc v => ih c hc (v := v) (h.below hc)
    match schema, hn with
    | .object ms, hn =>
      obtain ⟨w, hw, rfl⟩ := yields_object hv
      have hnode := soundForNode_of_decision hn hw ih
      constructor
      -- null is accepted for `nullable`, which the schema allows as well
      · intro x hx
        rw [Measures.satisfies_object_iff]
        obtain ⟨hnull, hx⟩ | hx := accepts_dressed_iff.mp hx
        · exact .inl ⟨hnull, Option.some.inj hx⟩
        · exact .inr (hnode.demands x hx)
      · intro hx
        obtain ⟨-, hx⟩ | hx := accepts_dressed_iff.mp hx
        · cases hx
        · exact hnode.present hx

/-! ## Schemas -/

/-- A covered schema with proper numbers has a validator whose text can be read, and in every
reading what the text accepts satisfies the schema. -/
theorem ofSchema_sound (M : Measures) {schema : Json} (hproper : schema.Proper)
    (h : Covered schema) :
    ∃ v, ofSchema schema = .ok v ∧ (∃ P, Zod.Reads M v.source P) ∧
      ∀ P, Zod.Reads M v.source P → ∀ x, P (some x) → M.Satisfies schema x := by
  obtain ⟨v, hv⟩ := exists_ofSchema_of_covered h
  obtain ⟨hread, hiff⟩ := Zod.reads_source_of_yields (M := M) hproper ⟨[], hv⟩
  refine ⟨v, hv, hread, fun P hP x hx => ?_⟩
  exact (soundFor_of_covered h ⟨[], hv⟩).satisfies x ((hiff P hP _).mp hx)

/-- Pairs of a name that is not empty and, perhaps, one of two tags. -/
def tagged : Json :=
  .object [
    ("type", .string "object"),
    ("properties", .object [
      ("name", .object [("type", .string "string"), ("minLength", .int 1)]),
      ("tag", .object [("enum", .strings ["new", "old"]), ("nullable", .bool true)])]),
    ("required", .strings ["name"]),
    ("additionalProperties", .bool false)]

/-- Such pairs are covered. -/
theorem covered_tagged : Covered tagged := by
  refine .intro (.typed (by decide) ⟨⟨_, .one rfl (by decide)⟩, ?_, ?_, ?_, ?_, ?_⟩) ?_
  · simp [numeric, lookup, List.lookup_cons]
  · simp [exclusive, lookup, List.lookup_cons]
  · simp [lookup, List.lookup_cons]
  · simp [lookup, List.lookup_cons]
  · intro j hj
    cases hj
    exact ⟨["name"], rfl, by decide⟩
  intro c hc
  cases hc with
  | member hkey h _ =>
    simp only [Json.combinators, List.mem_cons, List.not_mem_nil, or_false] at hkey
    obtain rfl | rfl | rfl := hkey <;> cases h
  | items h _ => cases h
  | item h _ => cases h
  | additional h => cases h
  | property h hp =>
    cases h
    simp only [List.mem_cons, List.not_mem_nil, or_false] at hp
    obtain rfl | rfl := hp
    · refine .leaf (.typed (by decide) ⟨⟨_, .one rfl (by decide)⟩, ?_, ?_, ?_, ?_, ?_⟩) (by decide)
      · simp [numeric, lookup, List.lookup_cons, Json.int]
      · simp [exclusive, lookup, List.lookup_cons]
      · simp [lookup, List.lookup_cons]
      · simp [lookup, List.lookup_cons]
      · exact fun _ h => by cases h
    · have henum : lookup [("enum", .strings ["new", "old"]), ("nullable", .bool true)] "enum" =
          some (.array [.string "new", .string "old"]) := rfl
      exact .leaf (.enum (by decide) henum (by decide)) (by decide)

/-- Pairs with a name and a tag have a validator that accepts nothing else. -/
theorem ofSchema_sound_tagged :
    tagged.Proper ∧ Covered tagged ∧
      ∃ v, ofSchema tagged = .ok v ∧ (∃ P, Zod.Reads .exact v.source P) ∧
        ∀ P, Zod.Reads .exact v.source P → ∀ x, P (some x) → Measures.exact.Satisfies tagged x := by
  have hproper : tagged.Proper := by
    simp [tagged, Json.Proper, Json.ProperMembers, Json.ProperItems, Json.strings, Json.int,
      Json.Number.Proper]
  exact ⟨hproper, covered_tagged, ofSchema_sound .exact hproper covered_tagged⟩

end Promptwright.Validator
