import Promptwright.Proofs.Prompt.Writing

/-!
# Checks that were written

A check is written as one object, with its options first and its model, its name and its id after
them.  What is at the end can be taken out without moving the rest, so the options are found again
in their order, and with them what the check looks for.

## Key results

- `resolveKind_options`: what a check looks for is found again
- `resolveCheck_document`: a check is found again
- `json_checks`: lists of checks are read as the values that they are written as
-/

namespace Promptwright

open Json (Members given filled)
open Record (Written read_of_written)

variable {o : Origin} {src : Source} {n : Node}

/-! ## What documents can hold -/

/-- The options of a check do not repeat its id, its name and its model. -/
theorem CheckKind.not_mem_keys_options {kind : CheckKind} (h : kind.Proper) :
    ∀ key ∈ ["id", "name", "model"], key ∉ kind.options.keys := by
  cases kind with
  | custom id model options => exact h.2
  | profanity model forbidden =>
    cases forbidden <;> simp [options, Members.keys, given, filled]
  | exactMatch _ _ | toolCalls _ | structuredOutput _ | aligned _ _ => simp [options, Members.keys]

/-- A check has its name and its id just once: they are not among the members before them. -/
theorem Check.not_mem_keys_before {c : Check} (h : c.kind.Proper) :
    "name" ∉ Members.keys (c.kind.options ++ given "model" .string c.kind.model) ∧
      "id" ∉ Members.keys (c.kind.options ++ given "model" .string c.kind.model ++
        given "name" .string c.name) := by
  have hkeys := CheckKind.not_mem_keys_options h
  have hname := hkeys "name" (by simp)
  have hid := hkeys "id" (by simp)
  constructor
  · exact Json.not_mem_keys_append_given hname (by decide)
  · exact Json.not_mem_keys_append_given (Json.not_mem_keys_append_given hid (by decide))
      (by decide)

/-- Documents can hold expected calls. -/
theorem wellFormed_expectedCalls {calls : List ExpectedCall}
    (h : ∀ c ∈ calls, c.arguments.WellFormed) :
    (Json.list ExpectedCall.document calls).WellFormed := by
  refine Json.wellFormedItems_iff.mpr fun j hj => ?_
  obtain ⟨c, hc, rfl⟩ := List.mem_map.mp hj
  have hkeys : (Members.keys [("tool_name", .string c.tool), ("args", c.arguments)]).Nodup := by
    simp [Members.keys]
  exact ⟨hkeys, trivial, h c hc, trivial⟩

/-- Documents can hold lists of texts. -/
theorem wellFormed_texts (ts : List String) : (Json.list .string ts).WellFormed := by
  refine Json.wellFormedItems_iff.mpr fun j hj => ?_
  obtain ⟨t, -, rfl⟩ := List.mem_map.mp hj
  trivial

/-- Documents can hold the options of a check. -/
theorem CheckKind.wellFormed_options {kind : CheckKind} (h : kind.WellFormed) :
    (Json.object kind.options).WellFormed := by
  cases kind with
  | custom id model options => exact h
  | exactMatch value caseInsensitive =>
    exact ⟨by simp [options, Members.keys], trivial, trivial, trivial⟩
  | toolCalls calls =>
    exact ⟨List.nodup_singleton _, wellFormed_expectedCalls h, trivial⟩
  | structuredOutput result => exact ⟨List.nodup_singleton _, trivial, trivial⟩
  | profanity model forbidden =>
    have hnew : "forbidden" ∉ Members.keys [] := List.not_mem_nil
    exact Json.wellFormed_append_given Json.wellFormed_empty hnew fun ts _ => wellFormed_texts ts
  | aligned model instructions => exact ⟨List.nodup_singleton _, trivial, trivial⟩

/-- Documents can hold a check. -/
theorem Check.wellFormed_document {c : Check} (hproper : c.kind.Proper) (h : c.kind.WellFormed) :
    c.document.WellFormed := by
  obtain ⟨hname, hid⟩ := c.not_mem_keys_before hproper
  have hmodel := CheckKind.not_mem_keys_options hproper "model" (by simp)
  have htext : ∀ (x : Option String) t, x = some t → (Json.string t).WellFormed :=
    fun _ _ _ => trivial
  have hoptions := Json.wellFormed_append_given (CheckKind.wellFormed_options h) hmodel
    (htext c.kind.model)
  have hnamed := Json.wellFormed_append_given hoptions hname (htext c.name)
  exact Json.wellFormed_append_given hnamed hid (htext (some c.id))

/-! ## Options -/

/-- The value that a text of JSON means. -/
theorem Origin.resolveJson_text {text : String} {j : Json} (h : Json.ofPaddedText? text = some j) :
    o.resolveJson (.string text) = .ok j := by
  have hreference : (Json.string text).reference? = none := rfl
  unfold resolveJson
  simp only [hreference, h]

/-- Options that are written for the fields of a record are read. -/
theorem Origin.checkOptions_of_written {α : Type} {r : Record α} {fs : List (Field α)}
    {options : Members} {a : α} (hr : r.names.Nodup) (hfields : fs.Perm r.fields)
    (h : Written .value fs options r.blank a) (id : String) :
    o.checkOptions id r options = .ok a := by
  have hread := read_of_written hr hfields h (Json.spelled_ofJson (.object options))
  rw [checkOptions, hread]

/-- An expected call is read. -/
theorem read_expectedCall {c : ExpectedCall} (hc : c.arguments.WellFormed)
    (hn : c.document.Spelled n) : CheckOptions.expectedCall.read src n = .ok c := by
  refine read_of_written (by decide) (.refl _) ?_ hn
  refine .value (fun n hn => Node.text_of_spelled hn _) ?_
  exact .value (fun n hn => Node.json_of_spelled _ hc n hn) .done

/-- Expected calls are read. -/
theorem read_expectedCalls {calls : List ExpectedCall} (h : ∀ c ∈ calls, c.arguments.WellFormed)
    (hn : (Json.list ExpectedCall.document calls).Spelled n) :
    n.list (CheckOptions.expectedCall.read src) = .ok calls := by
  have hlist : n.list (CheckOptions.expectedCall.read src) = .ok (calls.map id) :=
    Node.list_of_spelled (fun c hc m hm => read_expectedCall (h c hc) hm) hn
  rwa [List.map_id] at hlist

/-- Texts are read. -/
theorem read_texts {ts : List String} (hn : (Json.list .string ts).Spelled n) :
    n.list Node.string = .ok ts := by
  have hlist : n.list Node.string = .ok (ts.map id) :=
    Node.list_of_spelled (fun t _ m hm => Node.text_of_spelled hm _) hn
  rwa [List.map_id] at hlist

section Kinds

variable {model : Option String}

/-- An exact match is found again in its options. -/
theorem Origin.resolveKind_exactMatch (value : String) (caseInsensitive : Bool) :
    o.resolveKind "exact_match"
      [("value", .string value), ("case_insensitive", .bool caseInsensitive)] =
        .ok (.exactMatch value caseInsensitive) := by
  have hread : o.checkOptions "exact_match" CheckOptions.exactMatch
      [("value", .string value), ("case_insensitive", .bool caseInsensitive)] =
        .ok (value, caseInsensitive) := by
    refine checkOptions_of_written (by decide) (.refl _) ?_ _
    refine .value (fun n hn => Node.text_of_spelled hn _) ?_
    exact .value (fun n hn => Node.bool_of_spelled hn) .done
  rw [resolveKind, if_pos rfl, hread]
  rfl

/-- So is a check for calls. -/
theorem Origin.resolveKind_toolCalls {calls : List ExpectedCall}
    (h : ∀ c ∈ calls, c.arguments.WellFormed) :
    o.resolveKind "tool_call" [("tool_calls", Json.list ExpectedCall.document calls)] =
      .ok (.toolCalls calls) := by
  have hread : o.checkOptions "tool_call" CheckOptions.toolCalls
      [("tool_calls", Json.list ExpectedCall.document calls)] = .ok calls :=
    checkOptions_of_written (by decide) (.refl _)
      (.value (fun n hn => read_expectedCalls h hn) .done) _
  rw [resolveKind, if_neg (by decide), if_pos rfl, hread]
  rfl

/-- So is a check for a value. -/
theorem Origin.resolveKind_structuredOutput {result : Json}
    (h : Json.ofPaddedText? result.compact = some result) :
    o.resolveKind "structured_output" [("result", .string result.compact)] =
      .ok (.structuredOutput result) := by
  have hread : o.checkOptions "structured_output" CheckOptions.structuredOutput
      [("result", .string result.compact)] = .ok (.string result.compact) := by
    refine checkOptions_of_written (by decide) (.refl _) ?_ _
    exact .value (fun n hn => Node.json_of_spelled (.string _) trivial n hn) .done
  rw [resolveKind, if_neg (by decide), if_neg (by decide), if_pos rfl, hread]
  simp only [bind, Except.bind, resolveJson_text h]
  rfl

/-- So is a check for offensive words.  Its model is the first field, and stands at the end. -/
theorem Origin.resolveKind_profanity (forbidden : List String) :
    o.resolveKind "profanity"
      (given "forbidden" (Json.list .string) (filled forbidden) ++ given "model" .string model) =
        .ok (.profanity model forbidden) := by
  have hread : o.checkOptions "profanity" CheckOptions.profanity
      (given "forbidden" (Json.list .string) (filled forbidden) ++ given "model" .string model) =
        .ok (model, (filled forbidden).map id) := by
    refine checkOptions_of_written (by decide) (.swap _ _ []) (.of_append_nil ?_) _
    rw [List.append_assoc]
    exact .optional nofun (fun _ _ _ hn => read_texts hn) rfl (.optionalText rfl .done)
  rw [resolveKind, if_neg (by decide), if_neg (by decide), if_neg (by decide), if_pos rfl, hread]
  cases forbidden <;> rfl

/-- So is a check for instructions. -/
theorem Origin.resolveKind_aligned (instructions : String) :
    o.resolveKind "aligned"
      (("instructions", .string instructions) :: given "model" .string model) =
        .ok (.aligned model instructions) := by
  have hread : o.checkOptions "aligned" CheckOptions.aligned
      (("instructions", .string instructions) :: given "model" .string model) =
        .ok (model, instructions) := by
    refine checkOptions_of_written (by decide) (.swap _ _ []) (.of_append_nil ?_) _
    refine .value (fun n hn => Node.text_of_spelled hn _) ?_
    exact .optionalText rfl .done
  rw [resolveKind, if_neg (by decide), if_neg (by decide), if_neg (by decide),
    if_neg (by decide), if_pos rfl, hread]
  rfl

/-- So is a custom check, whose options are taken as they are. -/
theorem Origin.resolveKind_custom {id : String} {options : Members}
    (h : (CheckKind.custom id model options).Proper) :
    o.resolveKind id (options ++ given "model" .string model) = .ok (.custom id model options) := by
  obtain ⟨hid, hkeys⟩ := h
  have hmodel : "model" ∉ Members.keys options := hkeys "model" (by simp)
  have hlookup : Members.lookup (options ++ given "model" .string model) "model" =
      model.map .string := Json.lookup_append_given hmodel
  have hremove : Members.remove (options ++ given "model" .string model) "model" = options :=
    Json.remove_append_given hmodel
  simp only [CheckKind.builtinIds, List.mem_cons, List.not_mem_nil, or_false, not_or] at hid
  obtain ⟨h₁, h₂, h₃, h₄, h₅⟩ := hid
  rw [resolveKind, if_neg h₁, if_neg h₂, if_neg h₃, if_neg h₄, if_neg h₅, hlookup, hremove]
  cases model <;> rfl

end Kinds

/-- What a check looks for is found again in its options and its model. -/
theorem Origin.resolveKind_options {kind : CheckKind} (hproper : kind.Proper)
    (hwf : kind.WellFormed) (hprinted : ∀ j ∈ kind.printed, Json.ofPaddedText? j.compact = some j) :
    o.resolveKind kind.id (kind.options ++ given "model" .string kind.model) = .ok kind := by
  cases kind with
  | exactMatch value caseInsensitive => exact resolveKind_exactMatch value caseInsensitive
  | toolCalls calls => exact resolveKind_toolCalls hwf
  | structuredOutput result => exact resolveKind_structuredOutput (hprinted _ List.mem_cons_self)
  | profanity model forbidden => exact resolveKind_profanity forbidden
  | aligned model instructions => exact resolveKind_aligned instructions
  | custom id model options => exact resolveKind_custom hproper

/-! ## Checks -/

/-- A check that documents can hold, with values that can be read where they are texts. -/
structure Check.Writable (c : Check) : Prop where
  proper : c.kind.Proper
  wellFormed : c.kind.WellFormed
  printed : ∀ j ∈ c.kind.printed, Json.ofPaddedText? j.compact = some j

/-- A check is found again.  Its id, its name and its model are taken out from the end. -/
theorem Origin.resolveCheck_document {c : Check} (hc : c.Writable) :
    o.resolveCheck c.document = .ok c := by
  obtain ⟨hname, hid⟩ := Check.not_mem_keys_before hc.proper
  have hkind := resolveKind_options (o := o) hc.proper hc.wellFormed hc.printed
  simp only [resolveCheck, Check.document, Members.lookup_append_singleton hid,
    Members.remove_append_singleton hid, Json.lookup_append_given hname,
    Json.remove_append_given hname]
  obtain ⟨name, kind⟩ := c
  cases name with
  | none => exact bind_of_eq_ok hkind _
  | some name => exact bind_of_eq_ok hkind _

/-- Checks are found again. -/
theorem Origin.resolveChecks_document {cs : List Check} (hcs : ∀ c ∈ cs, c.Writable) :
    o.resolveChecks (checksDocument cs) = .ok cs := by
  cases cs with
  | nil => rfl
  | cons c cs => exact mapM_map_eq_ok fun c hc => resolveCheck_document (hcs c hc)

/-- Checks are read as the value that they are written as. -/
theorem json_checks {cs : List Check} (hcs : ∀ c ∈ cs, c.Writable)
    (hn : (Json.list Check.document cs).Spelled n) :
    n.json = .ok (Json.list Check.document cs) := by
  have hwf : (Json.list Check.document cs).WellFormed := by
    refine Json.wellFormedItems_iff.mpr fun j hj => ?_
    obtain ⟨c, hc, rfl⟩ := List.mem_map.mp hj
    exact Check.wellFormed_document (hcs c hc).proper (hcs c hc).wellFormed
  exact Node.json_of_spelled _ hwf n hn

end Promptwright
