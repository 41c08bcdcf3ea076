import Promptwright.Prompt.Resolve
import Promptwright.Proofs.Document.Records
import Promptwright.Proofs.Json.Members

/-!
# Checks in documents

Documents give checks as a list of objects, or as an object that leads from ids to options.  Either
way every item becomes one check, which has the id and the name that the item gives.

## Key results

- `CheckKind.Proper`: custom checks have an id of their own, and only options of their own
- `kindOf_of_resolveKind`, `resolveCheck_eq_ok`: what is read for one check
- `checkOf_of_resolveCheck`: one check
- `checksOf_of_resolveChecks`: all checks, in order
-/

namespace Promptwright

open Json (Members)

/-- A custom check does not have the id of a built-in one, and its options do not repeat its id, its
name and its model. -/
def CheckKind.Proper : CheckKind → Prop
  | .custom id _ options =>
    id ∉ builtinIds ∧ ∀ key ∈ ["id", "name", "model"], key ∉ Members.keys options
  | _ => True

/-- A check that an item of a document stands for has the id and the name of the item. -/
structure CheckOf (o : Origin) (item : Json) (c : Check) : Prop where
  resolved : o.resolveCheck item = .ok c
  id : item.get? "id" = some (.string c.id)
  name : c.name = (item.get? "name").bind Json.string?

/-! ## Items -/

/-- A check that is given as an id and its options, as an object with the id among the options. -/
def Json.withId : String × Json → Json
  | (id, .object options) => .object (Members.insert options "id" (.string id))
  | (id, _) => .object [("id", .string id)]

/-- The checks that a value lists, each as an object. -/
def Json.checkItems : Json → List Json
  | .array items => items
  | .object members => members.map withId
  | _ => []

/-- The items in a value that documents can hold. -/
theorem Json.wellFormed_of_mem_checkItems {j item : Json} (hj : j.WellFormed)
    (hitem : item ∈ j.checkItems) : item.WellFormed := by
  cases j with
  | array items => exact wellFormedItems_iff.mp hj item hitem
  | object members =>
    obtain ⟨⟨id, options⟩, hmem, rfl⟩ := List.mem_map.mp hitem
    have hoptions := wellFormedMembers_iff.mp hj.2 _ hmem
    have hempty := wellFormed_insert wellFormed_empty "id" (j := .string id) trivial
    cases options with
    | object options => exact wellFormed_insert hoptions "id" trivial
    | null | bool _ | number _ | string _ | array _ => exact hempty
  | null | bool _ | number _ | string _ => cases hitem

namespace Origin

variable {o : Origin}

/-! ## One check -/

/-- What a check with an id and options looks for, one constructor for each id.  A custom check has
the options that are left when its model is taken out. -/
inductive KindOf (o : Origin) (options : Members) : String → CheckKind → Prop
  | exactMatch {value : String} {caseInsensitive : Bool}
      (h : o.checkOptions "exact_match" CheckOptions.exactMatch options =
        .ok (value, caseInsensitive)) :
      KindOf o options "exact_match" (.exactMatch value caseInsensitive)
  | toolCalls {calls : List ExpectedCall}
      (h : o.checkOptions "tool_call" CheckOptions.toolCalls options = .ok calls) :
      KindOf o options "tool_call" (.toolCalls calls)
  | structuredOutput {given result : Json}
      (h : o.checkOptions "structured_output" CheckOptions.structuredOutput options = .ok given)
      (hresult : o.resolveJson given = .ok result) :
      KindOf o options "structured_output" (.structuredOutput result)
  | profanity {model : Option String} {forbidden : Option (List String)}
      (h : o.checkOptions "profanity" CheckOptions.profanity options = .ok (model, forbidden))
      (hforbidden : forbidden ≠ some []) :
      KindOf o options "profanity" (.profanity model (forbidden.getD []))
  | aligned {model : Option String} {instructions : String}
      (h : o.checkOptions "aligned" CheckOptions.aligned options = .ok (model, instructions)) :
      KindOf o options "aligned" (.aligned model instructions)
  | custom {id : String} (hid : id ∉ CheckKind.builtinIds)
      (hmodel : ∀ j, Members.lookup options "model" = some j → j = .null ∨ ∃ s, j = .string s) :
      KindOf o options id
        (.custom id ((Members.lookup options "model").bind Json.string?) (options.remove "model"))

/-- The ids are asked for one after the other. -/
theorem kindOf_of_resolveKind {id : String} {options : Members} {kind : CheckKind}
    (h : o.resolveKind id options = .ok kind) : KindOf o options id kind := by
  unfold resolveKind at h
  split at h
  · next heq =>
    obtain ⟨⟨value, caseInsensitive⟩, hread, h⟩ := bind_eq_ok h
    cases h
    exact heq ▸ .exactMatch (heq ▸ hread)
  split at h
  · next heq =>
    obtain ⟨calls, hread, h⟩ := bind_eq_ok h
    cases h
    exact heq ▸ .toolCalls (heq ▸ hread)
  split at h
  · next heq =>
    obtain ⟨given, hread, h⟩ := bind_eq_ok h
    obtain ⟨result, hresult, h⟩ := bind_eq_ok h
    cases h
    exact heq ▸ .structuredOutput (heq ▸ hread) hresult
  split at h
  · next heq =>
    obtain ⟨⟨model, forbidden⟩, hread, h⟩ := bind_eq_ok h
    dsimp only at h
    split at h
    · cases h
    · next hforbidden =>
      cases h
      exact heq ▸ .profanity (heq ▸ hread) hforbidden
  split at h
  · next heq =>
    obtain ⟨⟨model, instructions⟩, hread, h⟩ := bind_eq_ok h
    cases h
    exact heq ▸ .aligned (heq ▸ hread)
  next h₁ h₂ h₃ h₄ h₅ =>
    have hid : id ∉ CheckKind.builtinIds := by
      simp [CheckKind.builtinIds, h₁, h₂, h₃, h₄, h₅]
    have hcustom := @KindOf.custom o options id hid
    split at h
    · next hmodel =>
      cases h
      rw [hmodel] at hcustom
      exact hcustom nofun
    · next hmodel =>
      cases h
      rw [hmodel] at hcustom
      exact hcustom fun j hj => .inl (Option.some.inj hj).symm
    · next model hmodel =>
      cases h
      rw [hmodel] at hcustom
      exact hcustom fun j hj => .inr ⟨model, (Option.some.inj hj).symm⟩
    · cases h

/-- What a check looks for has the id that is asked for. -/
theorem KindOf.proper {id : String} {options : Members} {kind : CheckKind}
    (h : KindOf o options id kind) (hoptions : options.keys.Nodup)
    (hid : "id" ∉ options.keys) (hname : "name" ∉ options.keys) :
    kind.id = id ∧ kind.Proper := by
  cases h with
  | exactMatch => exact ⟨rfl, trivial⟩
  | toolCalls => exact ⟨rfl, trivial⟩
  | structuredOutput => exact ⟨rfl, trivial⟩
  | profanity => exact ⟨rfl, trivial⟩
  | aligned => exact ⟨rfl, trivial⟩
  | custom hbuiltin =>
    -- `id` and `name` were taken out before, and `model` is taken out now
    refine ⟨rfl, hbuiltin, fun key hkey => ?_⟩
    obtain rfl | rfl | rfl : key = "id" ∨ key = "name" ∨ key = "model" := by simpa using hkey
    · exact Members.not_mem_keys_remove hid "model"
    · exact Members.not_mem_keys_remove hname "model"
    · exact (Members.nodup_keys_remove hoptions "model").1

/-- An id that is not built in is the one of a custom check. -/
theorem KindOf.eq_custom {id : String} {options : Members} {kind : CheckKind}
    (h : KindOf o options id kind) (hid : id ∉ CheckKind.builtinIds) :
    kind = .custom id ((Members.lookup options "model").bind Json.string?)
      (options.remove "model") := by
  cases h with
  | custom => rfl
  | _ => exact absurd (by decide) hid

/-- A check has an id, perhaps a name, and options without the two. -/
theorem resolveCheck_eq_ok {item : Json} {c : Check} (h : o.resolveCheck item = .ok c) :
    ∃ ms id, item = .object ms ∧ Members.lookup ms "id" = some (.string id) ∧
      c.name = (Members.lookup (Members.remove ms "id") "name").bind Json.string? ∧
      KindOf o (Members.remove (Members.remove ms "id") "name") id c.kind := by
  unfold resolveCheck at h
  split at h
  · next ms =>
    split at h
    · next id hid =>
      dsimp only at h
      -- without a name, with null for it, or with a text
      split at h
      · next hname =>
        obtain ⟨kind, hkind, h⟩ := bind_eq_ok h
        cases h
        exact ⟨ms, id, rfl, hid, by rw [hname]; rfl, kindOf_of_resolveKind hkind⟩
      · next hname =>
        obtain ⟨kind, hkind, h⟩ := bind_eq_ok h
        cases h
        exact ⟨ms, id, rfl, hid, by rw [hname]; rfl, kindOf_of_resolveKind hkind⟩
      · next name hname =>
        obtain ⟨kind, hkind, h⟩ := bind_eq_ok h
        cases h
        exact ⟨ms, id, rfl, hid, by rw [hname]; rfl, kindOf_of_resolveKind hkind⟩
      · cases h
    · cases h
  · cases h

/-- An item stands for a check with its id and name. -/
theorem checkOf_of_resolveCheck {item : Json} {c : Check} (hitem : item.WellFormed)
    (h : o.resolveCheck item = .ok c) : CheckOf o item c ∧ c.kind.Proper := by
  obtain ⟨ms, id, rfl, hid, hname, hkind⟩ := resolveCheck_eq_ok h
  obtain ⟨hnodup, -⟩ := hitem
  obtain ⟨hnoid, hnodup'⟩ := Members.nodup_keys_remove hnodup "id"
  obtain ⟨hnoname, hnodup''⟩ := Members.nodup_keys_remove hnodup' "name"
  -- the name is looked up after the id is taken out, which does not matter for it
  rw [Members.lookup_remove_of_ne hnodup (by decide)] at hname
  obtain ⟨rfl, hproper⟩ :=
    hkind.proper hnodup'' (Members.not_mem_keys_remove hnoid "name") hnoname
  exact ⟨⟨h, hid, hname⟩, hproper⟩

/-- A check that is given as an id and its options is the one with the id among its options. -/
theorem resolveCheck_withId {m : String × Json} {c : Check} (h : o.resolveEntry m = .ok c) :
    o.resolveCheck (Json.withId m) = .ok c := by
  unfold resolveEntry at h
  split at h
  · exact h
  · exact h
  · cases h

/-! ## All checks -/

/-- The checks of a part of a document, if there is one: one for every item of its value, in their
order. -/
def ChecksOf (o : Origin) (part : Option Node) (cs : List Check) : Prop :=
  ∃ j, Node.ReadPart Node.json .null part j ∧ List.Forall₂ (CheckOf o) j.checkItems cs

/-- Every item of a value becomes a check. -/
theorem forall₂_of_resolveChecks {j : Json} {cs : List Check} (h : o.resolveChecks (some j) = .ok cs) :
    List.Forall₂ (fun item c => o.resolveCheck item = .ok c) j.checkItems cs := by
  unfold resolveChecks at h
  split at h
  · next heq => cases heq
  · next heq =>
    cases heq
    cases h
    exact .nil
  · next heq =>
    cases heq
    exact mapM_eq_ok h
  · next heq =>
    cases heq
    exact List.forall₂_map_left_iff.mpr ((mapM_eq_ok h).imp fun _ _ => resolveCheck_withId)
  · cases h

/-- The checks that a document gives, all of them proper. -/
theorem checksOf_of_resolveChecks {part : Option Node} {x : Option Json} {cs : List Check}
    (hx : Node.ReadPart (fun n => n.optional Node.json) none part x)
    (h : o.resolveChecks x = .ok cs) : ChecksOf o part cs ∧ ∀ c ∈ cs, c.kind.Proper := by
  -- a part that is missing, one that is null and one that holds a value lead to the same question
  have hof : ∀ {j}, Node.ReadPart Node.json .null part j → o.resolveChecks (some j) = .ok cs →
      j.WellFormed → ChecksOf o part cs ∧ ∀ c ∈ cs, c.kind.Proper := by
    intro j hj h hwf
    have hitems := forall₂_of_resolveChecks h
    have hof : ∀ item ∈ j.checkItems, ∀ c, o.resolveCheck item = .ok c →
        CheckOf o item c ∧ c.kind.Proper := fun item hmem _ =>
      checkOf_of_resolveCheck (Json.wellFormed_of_mem_checkItems hwf hmem)
    constructor
    · exact ⟨j, hj, forall₂_imp_of_mem hitems fun item hmem c hc => (hof item hmem c hc).1⟩
    · intro c hc
      obtain ⟨item, hmem, hitem⟩ := exists_of_mem_right hitems hc
      exact (hof item hmem c hitem).2
  cases hx with
  | missing => exact hof .missing h trivial
  | given hx =>
    obtain ⟨hgiven, rfl⟩ | ⟨j, -, rfl, hj⟩ := Node.optional_eq_ok hx
    · exact hof (.given (Node.json_of_not_given hgiven)) h trivial
    · exact hof (.given hj) h (Node.wellFormed_of_json _ hj)

end Origin

end Promptwright
