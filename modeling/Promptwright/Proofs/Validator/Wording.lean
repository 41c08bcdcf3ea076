import Promptwright.Proofs.Validator.Alike

/-!
# Validators of reworded schemas

Schemas that differ in free text only yield validators that differ in literals and comments only.
The induction is on the schemas below a node.  At a node both readings are taken apart: what is no
free text is the same on both sides, and the validators of the schemas below are alike.

## Key results

- `alike_textChecks`, `numberChecks_unique`, `sizeChecks_unique`: conditions
- `alike_of_typed`: validators of a type
- `alike_of_decision`: validators of a deciding keyword
- `alike_source_of_reworded`: validators of schemas
-/

namespace Promptwright.Validator

open Json (Below declared child_induction)
open Json.Members (lookup)
open Script (Alike)

variable {path path' : SchemaPath} {ms ns : Json.Members}

/-! ## Conditions -/

/-- A keyword with a number is read in the same way. -/
theorem number?_unique {keyword : String} (hl : lookup ms keyword = lookup ns keyword)
    {o o' : Option Json.Number} (h : number? path ms keyword = .ok o)
    (h' : number? path' ns keyword = .ok o') : o = o' := by
  ext n
  rw [← Option.mem_def, ← Option.mem_def, number?_eq_ok h, number?_eq_ok h', hl]

/-- Patterns are reworded. -/
theorem alike_patternOf (h : List.Forall₂ RewordedMember ms ns) {cs ds : List TextCheck}
    (hcs : patternOf path ms = .ok cs) (hds : patternOf path' ns = .ok ds) :
    List.Forall₂ (fun c d => Alike c.text d.text) cs ds := by
  rw [patternOf] at hcs hds
  obtain ⟨hj, hk⟩ | ⟨j, k, hj, hk, hjk⟩ := lookup_reworded h "pattern"
  · rw [hj] at hcs
    rw [hk] at hds
    cases hcs
    cases hds
    exact .nil
  · rw [hj] at hcs
    rw [hk] at hds
    -- the value is the same or another text, and a pattern is a text
    obtain rfl | ⟨s, t, rfl, rfl⟩ := hjk.of_text (by decide)
    · cases j with
      | string s =>
        cases hcs
        cases hds
        exact .cons (alike_pattern s s) .nil
      | _ => cases hcs
    · cases hcs
      cases hds
      exact .cons (alike_pattern s t) .nil

/-- Conditions on texts, with patterns reworded. -/
theorem alike_textChecks (h : List.Forall₂ RewordedMember ms ns) {cs ds : List TextCheck}
    (hcs : textChecks path ms = .ok cs) (hds : textChecks path' ns = .ok ds) :
    Alike (concat (cs.map TextCheck.text)) (concat (ds.map TextCheck.text)) := by
  obtain ⟨min, hmin, hcs⟩ := bind_eq_ok hcs
  obtain ⟨max, hmax, hcs⟩ := bind_eq_ok hcs
  obtain ⟨pattern, hpattern, hcs⟩ := bind_eq_ok hcs
  cases hcs
  obtain ⟨min', hmin', hds⟩ := bind_eq_ok hds
  obtain ⟨max', hmax', hds⟩ := bind_eq_ok hds
  obtain ⟨pattern', hpattern', hds⟩ := bind_eq_ok hds
  cases hds
  obtain rfl := number?_unique (lookup_eq h "minLength" (by decide)) hmin hmin'
  obtain rfl := number?_unique (lookup_eq h "maxLength" (by decide)) hmax hmax'
  have hformat : formatOf ms = formatOf ns := by
    rw [formatOf, formatOf, lookup_eq h "format" (by decide)]
  have hrefl : ∀ cs : List TextCheck, List.Forall₂ (fun c d => Alike c.text d.text) cs cs :=
    fun cs => List.forall₂_same.mpr fun c _ => alike_textCheck c
  rw [hformat]
  -- only the pattern may differ
  refine alike_concat (List.forall₂_map_left_iff.mpr (List.forall₂_map_right_iff.mpr ?_))
  exact List.rel_append
    (List.rel_append (List.rel_append (hrefl _) (hrefl _)) (alike_patternOf h hpattern hpattern'))
    (hrefl _)

/-- A condition on a number is read in the same way. -/
theorem numberCheck_unique {keyword : String} {r : Relation}
    (hl : lookup ms keyword = lookup ns keyword) {cs ds : List NumberCheck}
    (hcs : numberCheck path ms (keyword, r) = .ok cs)
    (hds : numberCheck path' ns (keyword, r) = .ok ds) : cs = ds := by
  rw [numberCheck] at hcs hds
  rw [hl] at hcs
  split at hcs
  next b hj =>
    rw [hj] at hds
    cases hcs
    cases hds
    rfl
  next hj =>
    -- the same keyword is there on both sides, so both come from the same branch
    split at hds
    next b hk => exact (hj b hk).elim
    next =>
      obtain ⟨n, hn, hcs⟩ := bind_eq_ok hcs
      obtain ⟨m, hm, hds⟩ := bind_eq_ok hds
      cases hcs
      cases hds
      rw [number?_unique hl hn hm]

/-- Conditions on numbers are read in the same way. -/
theorem numberChecks_unique (h : List.Forall₂ RewordedMember ms ns) {cs ds : List NumberCheck}
    (hcs : numberChecks path ms = .ok cs) (hds : numberChecks path' ns = .ok ds) : cs = ds := by
  obtain ⟨css, hcss, hcs⟩ := bind_eq_ok hcs
  cases hcs
  obtain ⟨dss, hdss, hds⟩ := bind_eq_ok hds
  cases hds
  have hsame : numberKeywords ms = numberKeywords ns := by
    rw [numberKeywords, numberKeywords, isTrue_eq h "exclusiveMinimum" (by decide),
      isTrue_eq h "exclusiveMaximum" (by decide)]
  -- the keywords of numbers are no wording, so their values are the same
  have hkeys : ∀ kr ∈ numberKeywords ms, kr.1 ∈ plainKeywords := by
    intro kr hkr
    have hall : ∀ key ∈ (numberKeywords ms).map Prod.fst, key ∈ plainKeywords := by
      show ∀ key ∈ ["minimum", "exclusiveMinimum", "maximum", "exclusiveMaximum", "multipleOf"], _
      decide
    exact hall kr.1 (List.mem_map_of_mem hkr)
  rw [← hsame] at hdss
  have heq : List.Forall₂ Eq css dss :=
    forall₂_partners (mapM_eq_ok hcss) (mapM_eq_ok hdss) (List.forall₂_same.mpr fun _ _ => rfl)
      fun kr hkr _ _ _ hsame hc hd => by
        cases hsame
        exact numberCheck_unique (lookup_eq h kr.1 (hkeys kr hkr)) hc hd
  rw [List.forall₂_eq_eq_eq] at heq
  rw [heq]

/-- Conditions on the number of items are read in the same way. -/
theorem sizeChecks_unique (h : List.Forall₂ RewordedMember ms ns) {cs ds : List SizeCheck}
    (hcs : sizeChecks path ms = .ok cs) (hds : sizeChecks path' ns = .ok ds) : cs = ds := by
  obtain ⟨min, hmin, hcs⟩ := bind_eq_ok hcs
  obtain ⟨max, hmax, hcs⟩ := bind_eq_ok hcs
  cases hcs
  obtain ⟨min', hmin', hds⟩ := bind_eq_ok hds
  obtain ⟨max', hmax', hds⟩ := bind_eq_ok hds
  cases hds
  rw [number?_unique (lookup_eq h "minItems" (by decide)) hmin hmin',
    number?_unique (lookup_eq h "maxItems" (by decide)) hmax hmax']

/-- Required names are read in the same way. -/
theorem requiredNames_unique (h : List.Forall₂ RewordedMember ms ns) {names names' : List String}
    (hn : requiredNames path ms = .ok names) (hn' : requiredNames path' ns = .ok names') :
    names = names' := by
  have hl := lookup_eq h "required" (by decide)
  obtain ⟨hj, rfl⟩ | hj := requiredNames_eq_ok hn
  · obtain ⟨-, rfl⟩ | hk := requiredNames_eq_ok hn'
    · rfl
    · cases (hj.symm.trans hl).trans hk
  · obtain ⟨hk, -⟩ | hk := requiredNames_eq_ok hn'
    · cases (hj.symm.trans hl).trans hk
    · have hnames := Json.array.inj (Option.some.inj ((hj.symm.trans hl).trans hk))
      exact List.map_injective_iff.mpr (fun _ _ => Json.string.inj) hnames

/-! ## Schemas below -/

/-- All rewordings of a schema have alike validators. -/
def WordingFree (s : Json) : Prop :=
  ∀ {t : Json} {v w : Validator}, Reworded s t → Yields s v → Yields t w → AlikeSource v w

/-- Lists of reworded schemas have alike validators. -/
theorem forall₂_alikeSource {ss ts : List Json} {vs ws : List Validator}
    (hfree : ∀ s ∈ ss, WordingFree s) (h : List.Forall₂ Reworded ss ts)
    (hvs : List.Forall₂ Yields ss vs) (hws : List.Forall₂ Yields ts ws) :
    List.Forall₂ AlikeSource vs ws :=
  forall₂_partners hvs hws h fun s hs _ _ _ hst hv hw => hfree s hs hst hv hw

/-- Declared properties are reworded. -/
theorem forall₂_declared (h : List.Forall₂ RewordedMember ms ns)
    (hp : ∀ j, lookup ms "properties" = some j → ∃ ps, j = .object ps) :
    List.Forall₂ RewordedProperty (declared ms) (declared ns) := by
  rw [declared, declared]
  obtain ⟨hj, hk⟩ | ⟨j, k, hj, hk, hjk⟩ := lookup_reworded h "properties"
  · rw [hj, hk]
    exact .nil
  · obtain ⟨ps, rfl⟩ := hp j hj
    obtain ⟨qs, rfl, hpq⟩ := hjk.of_properties
    rw [hj, hk]
    exact hpq

/-- Properties with the same names and alike validators, whichever of them are required. -/
theorem forall₂_alikeProperty {ps qs : Json.Members} {vs ws : List (String × Validator)}
    (hfree : ∀ p ∈ ps, WordingFree p.2) (h : List.Forall₂ RewordedProperty ps qs)
    (hvs : List.Forall₂ (fun p v => p.1 = v.1 ∧ Yields p.2 v.2) ps vs)
    (hws : List.Forall₂ (fun p v => p.1 = v.1 ∧ Yields p.2 v.2) qs ws) (names : List String) :
    List.Forall₂ AlikeProperty
      (vs.map fun (name, v) => ⟨name, names.contains name, v⟩)
      (ws.map fun (name, w) => ⟨name, names.contains name, w⟩) := by
  have hpairs : List.Forall₂ (fun v w => v.1 = w.1 ∧ AlikeSource v.2 w.2) vs ws := by
    refine forall₂_partners hvs hws h fun p hp q v w hpq hv hw => ?_
    cases hpq with
    | mk hpq => exact ⟨hv.1.symm.trans hw.1, hfree _ hp hpq hv.2 hw.2⟩
  exact List.rel_map (fun v w hvw => ⟨congrArg names.contains hvw.1, hvw.2⟩) hpairs

/-- What else objects may hold is alike. -/
theorem alike_additional (h : List.Forall₂ RewordedMember ms ns)
    (hfree : Below WordingFree ms) {r s : Rest Validator}
    (hr : Additional ms r) (hs : Additional ns s) : AlikeRest r s := by
  -- a schema for other members is reworded as a schema
  have hreworded : ∀ {j k}, RewordedKeyword "additionalProperties" j k → Reworded j k :=
    fun hjk => hjk.of_schema (by decide) fun hlist => absurd hlist (by decide)
  cases hr with
  | each hj hv =>
    obtain ⟨k, hk, hjk⟩ := exists_lookup_reworded h hj
    have hjk := hreworded hjk
    cases hs with
    | each hk' hw =>
      cases hk.symm.trans hk'
      exact ((Alike.code (by decide)).append (hfree _ (.additional hj) hjk hv hw)).append
        (.code (by decide))
    | nothing hk' =>
      cases hk.symm.trans hk'
      cases hjk
    | free _ ho =>
      cases hjk with
      | same => exact (ho _ hk).elim
      | node _ => exact (ho _ hk).elim
  | nothing hj =>
    obtain ⟨k, hk, hjk⟩ := exists_lookup_reworded h hj
    cases hreworded hjk
    cases hs with
    | each hk' _ => cases hk.symm.trans hk'
    | nothing _ => exact .code (by decide)
    | free hf _ => exact (hf hk).elim
  | free hf ho =>
    -- what leaves an object free is neither false nor an object after rewording either
    have hnone : ∀ k, lookup ns "additionalProperties" = some k →
        k ≠ .bool false ∧ ∀ os, k ≠ .object os := by
      intro k hk
      obtain ⟨-, hnone⟩ | ⟨j, k', hj, hk', hjk⟩ := lookup_reworded h "additionalProperties"
      · cases hnone.symm.trans hk
      · cases hk'.symm.trans hk
        cases hreworded hjk with
        | same => exact ⟨fun he => hf (he ▸ hj), fun os he => ho os (he ▸ hj)⟩
        | node _ => exact (ho _ hj).elim
    cases hs with
    | each hk _ => exact ((hnone _ hk).2 _ rfl).elim
    | nothing hk => exact ((hnone _ hk).1 rfl).elim
    | free _ _ => exact .code (by decide)

/-! ## Types -/

/-- What a type asks for, by its name. -/
def Asked (ms : Json.Members) (v : Validator) : String → Prop
  | "string" => ∃ path cs, textChecks path ms = .ok cs ∧ v = .text cs
  | "number" => ∃ path cs, numberChecks path ms = .ok cs ∧ v = .number false cs
  | "integer" => ∃ path cs, numberChecks path ms = .ok cs ∧ v = .number true cs
  | "boolean" => v = .boolean
  | "null" => v = .null
  | "array" => ∃ path cs, sizeChecks path ms = .ok cs ∧
    ((lookup ms "items" = none ∧ v = .array .any cs) ∨
      (∃ j w, lookup ms "items" = some j ∧ (∀ js, j ≠ .array js) ∧ Yields j w ∧
        v = .array w cs) ∨
      ∃ js ws, lookup ms "items" = some (.array js) ∧ List.Forall₂ Yields js ws ∧
        v = .tuple ws cs)
  | "object" => ∃ path names qs rest, requiredNames path ms = .ok names ∧
    List.Forall₂ (fun p q => p.1 = q.1 ∧ Yields p.2 q.2) (declared ms) qs ∧ Additional ms rest ∧
      v = .object (qs.map fun (name, w) => ⟨name, names.contains name, w⟩) rest
  | name => v = .unknown (.unknownType name)

/-- An unknown name asks for nothing. -/
theorem asked_unknown {name : String} (h : name ∉ kinds) (v : Validator) :
    Asked ms v name = (v = .unknown (.unknownType name)) := by
  simp only [kinds, List.mem_cons, List.not_mem_nil, or_false, not_or] at h
  obtain ⟨h₁, h₂, h₃, h₄, h₅, h₆, h₇⟩ := h
  rw [Asked] <;> assumption

/-- The validator of a type is what its name asks for. -/
theorem asked_of_typed {name : String} {v : Validator} (h : Typed ms name v) : Asked ms v name := by
  cases h with
  | text h => exact ⟨_, _, h, rfl⟩
  | number h => exact ⟨_, _, h, rfl⟩
  | integer h => exact ⟨_, _, h, rfl⟩
  | boolean => rfl
  | null => rfl
  | list hi h => exact ⟨_, _, h, .inl ⟨hi, rfl⟩⟩
  | each hi hj hv h => exact ⟨_, _, h, .inr (.inl ⟨_, _, hi, hj, hv, rfl⟩)⟩
  | inOrder hi hvs h => exact ⟨_, _, h, .inr (.inr ⟨_, _, hi, hvs, rfl⟩)⟩
  | object _ hn hq hr => exact ⟨_, _, _, _, hn, hq, hr, rfl⟩
  | unknown h => rw [asked_unknown h]

/-- Validators of lists are alike. -/
theorem alike_of_array (h : List.Forall₂ RewordedMember ms ns)
    (hfree : Below WordingFree ms) {v w : Validator}
    (hv : Asked ms v "array") (hw : Asked ns w "array") : AlikeSource v w := by
  obtain ⟨path, cs, hcs, hv⟩ := hv
  obtain ⟨path', ds, hds, hw⟩ := hw
  obtain rfl := sizeChecks_unique h hcs hds
  -- one schema for all items, or one for each place, is so on both sides
  obtain ⟨hi, hi'⟩ | ⟨j, k, hi, hi', hjk⟩ := lookup_reworded h "items"
  · simp only [hi, hi', reduceCtorEq, false_and, exists_false, or_false, true_and] at hv hw
    rw [hv, hw]
    exact alike_array (.code (by decide)) cs
  simp only [hi, hi', reduceCtorEq, false_and, false_or, Option.some.injEq] at hv hw
  obtain ⟨_, v, rfl, hj, hv, rfl⟩ | ⟨js, vs, rfl, hvs, rfl⟩ := hv
  · have hjk := hjk.of_schema (by decide) fun _ => hj
    obtain ⟨_, w, rfl, hk, hw, rfl⟩ | ⟨ks, ws, rfl, hws, rfl⟩ := hw
    · exact alike_array (hfree _ (.items hi hj) hjk hv hw) cs
    · cases hjk
      exact (hj _ rfl).elim
  · obtain ⟨ks, rfl, hjks⟩ := hjk.of_schemas (by decide)
    obtain ⟨_, w, rfl, hk, hw, rfl⟩ | ⟨_, ws, hks, hws, rfl⟩ := hw
    · exact (hk _ rfl).elim
    · cases hks
      exact alike_tuple (forall₂_alikeSource (fun s hs => hfree s (.item hi hs)) hjks hvs hws) cs

/-- Validators of a type are alike. -/
theorem alike_of_typed (h : List.Forall₂ RewordedMember ms ns)
    (hfree : Below WordingFree ms) {name : String} {v w : Validator}
    (hv : Typed ms name v) (hw : Typed ns name w) : AlikeSource v w := by
  have hw := asked_of_typed hw
  -- the same type on both sides: its keywords are the same, and its schemas are alike
  cases hv with
  | text hcs =>
    obtain ⟨path, ds, hds, rfl⟩ := hw
    exact (Alike.code (by decide)).append (alike_textChecks h hcs hds)
  | number hcs =>
    obtain ⟨path, ds, hds, rfl⟩ := hw
    rw [numberChecks_unique h hcs hds]
    exact (Alike.code (by decide)).append (alike_checks alike_numberCheck ds)
  | integer hcs =>
    obtain ⟨path, ds, hds, rfl⟩ := hw
    rw [numberChecks_unique h hcs hds]
    exact (Alike.code (by decide)).append (alike_checks alike_numberCheck ds)
  | boolean =>
    cases hw
    exact .code (by decide)
  | null =>
    cases hw
    exact .code (by decide)
  | list hi hcs => exact alike_of_array h hfree (asked_of_typed (.list hi hcs)) hw
  | each hi hj hv hcs => exact alike_of_array h hfree (asked_of_typed (.each hi hj hv hcs)) hw
  | inOrder hi hvs hcs => exact alike_of_array h hfree (asked_of_typed (.inOrder hi hvs hcs)) hw
  | object hp hn hq hr =>
    obtain ⟨path, names, rs, rest, hn', hq', hr', rfl⟩ := hw
    obtain rfl := requiredNames_unique h hn hn'
    exact alike_object
      (forall₂_alikeProperty (fun p hp => hfree p.2 (.of_declared hp)) (forall₂_declared h hp)
        hq hq' _)
      (alike_additional h hfree hr hr')
  | unknown hname =>
    rw [asked_unknown hname] at hw
    rw [hw]
    exact alike_unknown _ _

/-- Validators of reworded types are alike. -/
theorem alike_of_rewordedType (h : List.Forall₂ RewordedMember ms ns)
    (hfree : Below WordingFree ms) {s t : String} {v w : Validator}
    (hst : RewordedType (.string s) (.string t)) (hv : Typed ms s v) (hw : Typed ns t w) :
    AlikeSource v w := by
  cases hst with
  | same => exact alike_of_typed h hfree hv hw
  | unknown hs ht =>
    have hv := asked_of_typed hv
    have hw := asked_of_typed hw
    rw [asked_unknown hs] at hv
    rw [asked_unknown ht] at hw
    rw [hv, hw]
    exact alike_unknown _ _

/-! ## Nodes -/

/-- A list of schemas under a keyword is reworded to one. -/
theorem forall₂_alikeSource_of_lookup (h : List.Forall₂ RewordedMember ms ns)
    (hfree : Below WordingFree ms) {keyword : String} {js ks : List Json}
    {vs ws : List Validator} (hkey : keyword ∈ Json.combinators)
    (hj : lookup ms keyword = some (.array js)) (hk : lookup ns keyword = some (.array ks))
    (hvs : List.Forall₂ Yields js vs) (hws : List.Forall₂ Yields ks ws) :
    List.Forall₂ AlikeSource vs ws := by
  have hlist : ∀ key ∈ Json.combinators, key ∈ listKeywords := by decide
  obtain ⟨k, hk', hjk⟩ := exists_lookup_reworded h hj
  obtain ⟨ks', rfl, hjks⟩ := hjk.of_schemas (hlist keyword hkey)
  cases hk'.symm.trans hk
  exact forall₂_alikeSource (fun s hs => hfree s (.member hkey hj hs)) hjks hvs hws

/-- Validators of one of several reworded types are alike. -/
theorem alike_of_types (h : List.Forall₂ RewordedMember ms ns)
    (hfree : Below WordingFree ms) {names names' : List String}
    {vs ws : List Validator}
    (hnames : List.Forall₂ RewordedType (names.map .string) (names'.map .string))
    (hvs : List.Forall₂ (Typed ms) names vs) (hws : List.Forall₂ (Typed ns) names' ws) :
    AlikeSource (ofTypes vs) (ofTypes ws) := by
  have hnames := List.forall₂_map_right_iff.mp (List.forall₂_map_left_iff.mp hnames)
  exact alike_ofTypes (forall₂_partners hvs hws hnames fun _ _ _ _ _ hst hv hw =>
    alike_of_rewordedType h hfree hst hv hw)

/-- Validators that the same keyword decided for are alike. -/
theorem alike_of_decision (h : List.Forall₂ RewordedMember ms ns)
    (hfree : Below WordingFree ms) {d : Decider} {v w : Validator}
    (hv : Decision ms d v) (hw : Decision ns d w) : AlikeSource v w := by
  -- the same keyword decides on both sides, with a reworded value
  cases hv with
  | const hj hcj =>
    obtain ⟨k, hk, hjk⟩ := exists_lookup_reworded h hj
    cases hw with
    | const hk' _ =>
      cases hk.symm.trans hk'
      exact alike_literal hcj hjk.of_const
  | enum hj hjs =>
    obtain ⟨k, hk, hjk⟩ := exists_lookup_reworded h hj
    obtain ⟨ks, rfl, hjks⟩ := hjk.of_enum
    cases hw with
    | enum hk' _ =>
      cases hk.symm.trans hk'
      exact alike_ofValues hjs hjks
  | anyOf hj hvs =>
    cases hw with
    | anyOf hk hws =>
      exact alike_ofMembers (forall₂_alikeSource_of_lookup h hfree (by decide) hj hk hvs hws)
  | oneOf hj hvs =>
    cases hw with
    | oneOf hk hws =>
      exact alike_ofMembers (forall₂_alikeSource_of_lookup h hfree (by decide) hj hk hvs hws)
  | allOf hj hvs =>
    cases hw with
    | allOf hk hws =>
      exact alike_ofAll (forall₂_alikeSource_of_lookup h hfree (by decide) hj hk hvs hws)
  | type hj hv =>
    obtain ⟨k, hk, hjk⟩ := exists_lookup_reworded h hj
    have hjk := hjk.of_type nofun
    cases hw with
    | type hk' hw =>
      cases hk.symm.trans hk'
      exact alike_of_rewordedType h hfree hjk hv hw
    | types hk' _ =>
      cases hk.symm.trans hk'
      cases hjk
  | types hj hvs =>
    obtain ⟨k, hk, hjk⟩ := exists_lookup_reworded h hj
    obtain ⟨ks, rfl, hjks⟩ := hjk.of_types
    cases hw with
    | type hk' _ => cases hk.symm.trans hk'
    | types hk' hws =>
      cases hk.symm.trans hk'
      exact alike_of_types h hfree hjks hvs hws
  | nothing =>
    cases hw with
    | nothing => exact alike_unknown _ _

/-- A boolean yields one validator. -/
theorem yields_bool {b : Bool} {v : Validator} (h : Yields (.bool b) v) :
    v = if b then .any else .never := by
  obtain ⟨path, h⟩ := h
  cases b <;> exact (Except.ok.inj h).symm

/-- Reworded schemas have alike validators. -/
theorem alike_source_of_reworded (s : Json) : WordingFree s := by
  induction s using child_induction with
  | step s ih =>
    intro t v w h hv hw
    have hschema := isSchema_of_yields hv
    cases s with
    | bool b =>
      cases h
      rw [yields_bool hv, yields_bool hw]
      cases b <;> exact .code (by decide)
    | object ms =>
      -- a reworded object is an object
      obtain ⟨ns, rfl⟩ : ∃ ns, t = .object ns := by
        cases h with
        | same => exact ⟨ms, rfl⟩
        | node _ => exact ⟨_, rfl⟩
      obtain ⟨v, hdv, rfl⟩ := yields_object hv
      obtain ⟨w, hdw, rfl⟩ := yields_object hw
      have h := h.members
      rw [← decider_eq h] at hdw
      exact alike_dressed h (alike_of_decision h ih hdv hdw)
    | null | number _ | string _ | array _ => cases hschema

end Promptwright.Validator
