import Promptwright.Proofs.Prompt.WrittenChecks

/-!
# Prompts that were written

A prompt that is written as a document is found again in it.  Reading the document gives a draft of
all that it says, part by part, and resolving the draft gives the prompt: missing lists are empty
again, and texts are the values that they hold.

## Key results

- `read_message`, `read_case`, `read_prompt`: what is written is read
- `resolve_draft`: what is read is resolved to what was written
- `parse_document`: a prompt is found again in its document
-/

namespace Promptwright

open Json (Members given filled)
open Record (read_of_written)

variable {o : Origin} {src : Source} {n : Node}

/-! ## Messages -/

/-- A function of a call is read. -/
theorem read_function {c : ToolCall} (hc : c.arguments.WellFormed)
    (hn : (Json.object [("name", .string c.name), ("arguments", c.arguments)]).Spelled n) :
    FunctionDraft.record.read src n = .ok (c.name, c.arguments) := by
  refine read_of_written (by decide) (.refl _) ?_ hn
  refine .value (fun n hn => Node.text_of_spelled hn _) ?_
  exact .value (fun n hn => Node.json_of_spelled _ hc n hn) .done

/-- A call is read. -/
theorem read_call {c : ToolCall} (hc : c.arguments.WellFormed) (hn : c.toJson.Spelled n) :
    CallDraft.record.read src n = .ok c.draft := by
  refine read_of_written (by decide) (.refl _) ?_ hn
  refine .value (fun n hn => Node.text_of_spelled hn _) ?_
  refine .value (fun n hn => read_function hc hn) ?_
  exact .skip rfl .done

namespace Message

/-- The role of a message is read. -/
theorem readRole_of_spelled {role : MessageDraft.Role} (h : (Json.string role.name).Spelled n) :
    MessageDraft.readRole n = .ok role := by
  rw [MessageDraft.readRole, Node.text_of_spelled h]
  cases role <;> rfl

/-- A message has its role just once. -/
theorem role_not_mem_keys (m : Message) : "role" ∉ m.parts.keys := by
  cases m with
  | user content name => cases name <;> simp [parts, Members.keys, given]
  | assistant content calls => cases calls <;> simp [parts, Members.keys, given, filled]
  | tool callId name result isError => simp [parts, Members.keys]

end Message

/-- Without a further role, everything is set aside. -/
theorem splitRole_of_spelled {ms : Members} {es : List (Node × Node)}
    (role : Option MessageDraft.Role) (hms : "role" ∉ ms.keys) (h : Json.SpelledMembers ms es) :
    MessageDraft.splitRole es role = .ok (role, Node.ofMembers ms) := by
  induction ms generalizing es with
  | nil =>
    cases h
    rfl
  | cons m ms ih =>
    obtain ⟨key, j⟩ := m
    obtain ⟨k, v, es, rfl, hk, hv, h⟩ := h
    rw [Members.keys_cons, List.mem_cons, not_or] at hms
    have hkey : MessageDraft.isRoleKey (.atom (.string key)) = false := by
      simpa [MessageDraft.isRoleKey] using Ne.symm hms.1
    simp only [MessageDraft.splitRole, Node.setAside_of_spellsAtom (a := .string key) (by simp) hk,
      Node.setAside_of_spelled _ j v hv, ih hms.2 h, hkey, bind, Except.bind]
    rfl

/-- What a message holds beside its role is read. -/
theorem readRest_parts {m : Message} (hm : m.WellFormed) :
    MessageDraft.readRest src (Node.ofJson (.object m.parts)) m.speaker = .ok m.draft := by
  have hspelled := Json.spelled_ofJson (.object m.parts)
  cases m with
  | user content name =>
    have hread : MessageDraft.userRecord.read src
        (Node.ofJson (.object (Message.user content name).parts)) = .ok (content, name) := by
      -- all parts are written, the last one only if there is a name
      refine read_of_written (by decide) (.refl _) (.of_append_nil ?_) hspelled
      refine .value (fun n hn => Node.text_of_spelled hn _) ?_
      exact .optionalText rfl .done
    simp only [MessageDraft.readRest, Message.speaker, hread, bind, Except.bind]
    rfl
  | assistant content calls =>
    have hcalls : ∀ cs, filled calls = some cs → ∀ n, (Json.list ToolCall.toJson cs).Spelled n →
        -- there may be no calls, and then nothing is written for them
        n.list (CallDraft.record.read src) = .ok (cs.map ToolCall.draft) := fun cs hcs n hn =>
      Node.list_of_spelled (fun c hc _ hn => read_call (Json.forall_of_filled hm hcs c hc) hn) hn
    have hread : MessageDraft.assistantRecord.read src
        (Node.ofJson (.object (Message.assistant content calls).parts)) =
          .ok (some content, (filled calls).map (List.map ToolCall.draft)) := by
      refine read_of_written (by decide) (.refl _) (.of_append_nil ?_) hspelled
      have hcontent : ∀ n, (Json.string content).Spelled n →
          n.optional Node.string = .ok (some content) := fun n hn =>
        Node.optional_of_spelled (by simp) hn (Node.text_of_spelled hn _)
      refine .value hcontent ?_
      exact .optional nofun hcalls rfl .done
    simp only [MessageDraft.readRest, Message.speaker, hread, bind, Except.bind]
    rfl
  | tool callId name result isError =>
    have hread : MessageDraft.toolRecord.read src
        (Node.ofJson (.object (Message.tool callId name result isError).parts)) =
          .ok ⟨callId, name, result, isError⟩ := by
      refine read_of_written (by decide) (.refl _) ?_ hspelled
      refine .value (fun n hn => Node.text_of_spelled hn _) ?_
      refine .value (fun n hn => Node.text_of_spelled hn _) ?_
      refine .value (fun n hn => Node.json_of_spelled _ hm n hn) ?_
      exact .value (fun n hn => Node.bool_of_spelled hn) .done
    simp only [MessageDraft.readRest, Message.speaker, hread, bind, Except.bind]
    rfl

/-- A message is read. -/
theorem read_message {m : Message} (hm : m.WellFormed) (hn : m.document.Spelled n) :
    MessageDraft.read src n = .ok m.draft := by
  obtain ⟨es, rfl, k, v, rest, rfl, hk, hv, hrest⟩ := hn
  have hsplit : MessageDraft.splitRole ((k, v) :: rest) none =
      .ok (some m.speaker, Node.ofMembers m.parts) := by
    have hrole := Node.setAside_of_spellsAtom (a := .string "role") (by simp) hk
    have htail := splitRole_of_spelled (some m.speaker) (Message.role_not_mem_keys m) hrest
    simp only [MessageDraft.splitRole, hrole, MessageDraft.isRoleKey, beq_self_eq_true, if_true,
      Option.isSome_none, Message.readRole_of_spelled hv, htail, bind, Except.bind]
    rfl
  have hparts : MessageDraft.readRest src.setAside (Node.ofJson (.object m.parts)) m.speaker =
      .ok m.draft := readRest_parts hm
  simp only [MessageDraft.read, hsplit, bind, Except.bind]
  exact hparts

/-- Messages are read. -/
theorem read_messages {ms : List Message} (hms : ∀ m ∈ ms, m.WellFormed)
    (hn : (Json.list Message.document ms).Spelled n) :
    n.list (MessageDraft.read src) = .ok (ms.map Message.draft) :=
  Node.list_of_spelled (fun m hm _ hn => read_message (hms m hm) hn) hn

/-! ## Tools -/

/-- A tool is read. -/
theorem read_tool {t : Tool} (hn : t.document.Spelled n) :
    ToolDeclaration.record.read src n = .ok t.declaration := by
  refine read_of_written (by decide) (.refl _) ?_ hn
  refine .value (fun n hn => Node.text_of_spelled hn _) ?_
  refine .value (fun n hn => Node.text_of_spelled hn _) ?_
  exact .value (fun n hn => Node.json_of_spelled (.string _) trivial n hn) .done

/-! ## Evaluations -/

/-- A case that documents can hold. -/
structure EvaluationCase.Writable (c : EvaluationCase) : Prop where
  ne_nil : c.messages ≠ []
  messages : ∀ m ∈ c.messages, m.WellFormed
  checks : ∀ k ∈ c.checks, k.Writable

/-- A case is read. -/
theorem read_case {c : EvaluationCase} (hc : c.Writable) (hn : c.document.Spelled n) :
    CaseDraft.record.read src n = .ok c.draft := by
  have hchecks : ∀ ks, filled c.checks = some ks → ∀ n, (Json.list Check.document ks).Spelled n →
      n.json = .ok (Json.list Check.document ks) :=
    fun ks hks n hn => json_checks (Json.forall_of_filled hc.checks hks) hn
  refine read_of_written (by decide) (.refl _) (.of_append_nil ?_) hn
  rw [List.append_assoc]
  refine .optionalText rfl ?_
  refine .value (fun n hn => read_messages hc.messages hn) ?_
  exact .optional nofun hchecks rfl .done

/-- An evaluation is read. -/
theorem read_suite {s : EvaluationSuite} (hchecks : ∀ k ∈ s.checks, k.Writable)
    (hcases : ∀ c ∈ s.cases, c.Writable) (hn : s.document.Spelled n) :
    EvaluationDraft.record.read src n = .ok s.draft := by
  have hread : ∀ ks, filled s.checks = some ks → ∀ n, (Json.list Check.document ks).Spelled n →
      n.json = .ok (Json.list Check.document ks) :=
    fun ks hks n hn => json_checks (Json.forall_of_filled hchecks hks) hn
  refine read_of_written (by decide) (.refl _) ?_ hn
  refine .optional nofun hread rfl ?_
  exact .value (fun n hn => Node.list_of_spelled (fun c hc _ hn => read_case (hcases c hc) hn) hn)
    .done

/-! ## Resolving -/

namespace Origin

/-- A list that was left out when it was empty is found again. -/
theorem resolveList_filled {α β : Type} {resolve : β → Except LoadError α} {draft : α → β}
    {as : List α} (h : ∀ a ∈ as, resolve (draft a) = .ok a) (ifEmpty : Flaw) :
    o.resolveList ifEmpty resolve ((filled as).map (List.map draft)) = .ok as := by
  cases as with
  | nil => rfl
  | cons a as => exact mapM_map_eq_ok h

/-- A message is found again. -/
theorem resolveMessage_draft (m : Message) : o.resolveMessage m.draft = .ok m := by
  cases m with
  | user content name => rfl
  | assistant content calls =>
    have hcall : ∀ c ∈ calls, o.resolveCall c.draft = .ok c := fun c _ => rfl
    have hcalls : o.resolveList .noCalls o.resolveCall
        ((filled calls).map (List.map ToolCall.draft)) = .ok calls :=
      resolveList_filled hcall .noCalls
    exact bind_of_eq_ok hcalls _
  | tool callId name result isError => rfl

/-- A schema is found again. -/
theorem resolveSchema_compact {s : Schema} (hs : s.Typed)
    (h : Json.ofPaddedText? s.value.compact = some s.value) (place : SchemaPlace) :
    o.resolveSchema place (.string s.value.compact) = .ok s := by
  have htyped : Schema.isTyped ⟨s.value⟩ = true := by
    obtain ⟨ms, j, hms, hj⟩ := hs
    rw [Schema.isTyped, Schema.get?, hms, Json.get?, hj]
    rfl
  simp only [resolveSchema, resolveJson_text h, bind, Except.bind, htyped, if_true]
  rfl

/-- A tool is found again. -/
theorem resolveTool_declaration {t : Tool} (ht : t.parameters.Typed)
    (h : Json.ofPaddedText? t.parameters.value.compact = some t.parameters.value) :
    o.resolveTool t.declaration = .ok t := by
  have hparameters := resolveSchema_compact (o := o) ht h (.tool t.name)
  exact bind_of_eq_ok hparameters _

/-- A case is found again. -/
theorem resolveCase_draft {c : EvaluationCase} (hc : c.Writable) :
    o.resolveCase c.draft = .ok c := by
  have hmessages : (c.messages.map Message.draft).mapM o.resolveMessage = .ok c.messages :=
    mapM_map_eq_ok fun m _ => resolveMessage_draft m
  have hchecks := resolveChecks_document (o := o) hc.checks
  have hne : ¬ (c.messages.map Message.draft).isEmpty = true := by simpa using hc.ne_nil
  rw [resolveCase, EvaluationCase.draft, if_neg hne]
  exact (bind_of_eq_ok hmessages _).trans (bind_of_eq_ok hchecks _)

/-- An evaluation is found again. -/
theorem resolveEvaluation_draft {s : EvaluationSuite} (hne : s.cases ≠ [])
    (hchecks : ∀ k ∈ s.checks, k.Writable) (hcases : ∀ c ∈ s.cases, c.Writable) :
    o.resolveEvaluation s.draft = .ok s := by
  have hcases' : (s.cases.map EvaluationCase.draft).mapM o.resolveCase = .ok s.cases :=
    mapM_map_eq_ok fun c hc => resolveCase_draft (hcases c hc)
  have hne' : ¬ (s.cases.map EvaluationCase.draft).isEmpty = true := by simpa using hne
  rw [resolveEvaluation, EvaluationSuite.draft, if_neg hne']
  exact (bind_of_eq_ok (resolveChecks_document hchecks) _).trans (bind_of_eq_ok hcases' _)

end Origin

/-! ## Prompts -/

/-- A value that may be missing is found again. -/
theorem optional_mapM_map {α β : Type} {resolve : β → Except LoadError α} {draft : α → β}
    {x : Option α} (h : ∀ a, x = some a → resolve (draft a) = .ok a) :
    (x.map draft).mapM resolve = .ok x := by
  cases x with
  | none => rfl
  | some a => exact bind_of_eq_ok (h a rfl) _

/-- The checks and cases of a valid evaluation can be written. -/
theorem EvaluationSuite.Valid.writable {s : EvaluationSuite} (hs : s.Valid) (hwf : s.WellFormed)
    (hprinted : ∀ k ∈ s.allChecks, ∀ j ∈ k.kind.printed, Json.ofPaddedText? j.compact = some j) :
    (∀ k ∈ s.checks, k.Writable) ∧ ∀ c ∈ s.cases, c.Writable := by
  have hchecks : ∀ k ∈ s.allChecks, k.kind.Proper → k.Writable := fun k hk hproper =>
    ⟨hproper, hwf.checks k hk, hprinted k hk⟩
  constructor
  · exact fun k hk => hchecks k (List.mem_append_left _ hk) (hs.checks k hk)
  · refine fun c hc => ⟨hs.messages c hc, hwf.messages c hc, fun k hk => ?_⟩
    have hmem : k ∈ s.cases.flatMap EvaluationCase.checks := List.mem_flatMap.mpr ⟨c, hc, hk⟩
    exact hchecks k (List.mem_append_right _ hmem) (hs.caseChecks c hc k hk)

section Prompts

variable {p : Prompt}

/-- The evaluation of a valid prompt can be written. -/
theorem Prompt.Valid.writable (hp : p.Valid) (hwf : p.WellFormed)
    (hprinted : ∀ j ∈ p.printed, Json.ofPaddedText? j.compact = some j) {s : EvaluationSuite}
    (hs : p.evaluation = some s) : (∀ k ∈ s.checks, k.Writable) ∧ ∀ c ∈ s.cases, c.Writable := by
  refine (hp.evaluation s hs).writable (hwf.evaluation s hs) fun k hk j hj => hprinted j ?_
  rw [Prompt.printed, hs]
  refine List.mem_append_right _ ?_
  simpa using ⟨k, hk, hj⟩

/-- The document of a prompt is read. -/
theorem read_prompt (hp : p.Valid) (hwf : p.WellFormed)
    (hprinted : ∀ j ∈ p.printed, Json.ofPaddedText? j.compact = some j)
    (hn : p.document.Spelled n) : PromptDraft.record.read src n = .ok p.draft := by
  -- a version has 32 bits, and the reader takes 64
  have hversion : Node.isSigned p.version = true := by
    have h := hp.version
    have hbound : Json.Number.signedBound = 2 ^ 63 := by decide
    rw [Node.isSigned, hbound, Bool.and_eq_true]
    exact ⟨decide_eq_true (by omega), decide_eq_true (by omega)⟩
  have hmessages : ∀ {as}, (∀ m ∈ as, m.WellFormed) → ∀ ms, filled as = some ms → ∀ n,
      (Json.list Message.document ms).Spelled n →
        n.list (MessageDraft.read src) = .ok (ms.map Message.draft) :=
    fun has ms hms n hn => read_messages (Json.forall_of_filled has hms) hn
  have htools : ∀ ts, filled p.tools = some ts → ∀ n, (Json.list Tool.document ts).Spelled n →
      n.list (ToolDeclaration.record.read src) = .ok (ts.map Tool.declaration) :=
    fun ts _ n hn => Node.list_of_spelled (fun t _ _ hn => read_tool hn) hn
  have hschema : ∀ s, p.schema = some s → ∀ n, (Json.string s.value.compact).Spelled n →
      n.json = .ok (.string s.value.compact) :=
    fun s _ n hn => Node.json_of_spelled (.string _) trivial n hn
  have hevaluation : ∀ s, p.evaluation = some s → ∀ n, s.document.Spelled n →
      EvaluationDraft.record.read src n = .ok s.draft := by
    intro s hs n hn
    obtain ⟨hchecks, hcases⟩ := hp.writable hwf hprinted hs
    exact read_suite hchecks hcases hn
  refine read_of_written (by decide) (.refl _) (.of_append_nil ?_) hn
  simp only [List.cons_append, List.append_assoc]
  -- field by field, as they are written
  refine .value (fun n hn => Node.text_of_spelled hn _) ?_
  refine .optionalText rfl ?_
  refine .value (fun n hn => Node.signed_of_spelled hversion hn) ?_
  refine .value (fun n hn => Node.text_of_spelled hn _) ?_
  refine .value (fun n hn => Node.float_of_spelled hn) ?_
  refine .optional nofun (hmessages hwf.fewShot) rfl ?_
  refine .optional nofun (hmessages hwf.final) rfl ?_
  refine .optional nofun htools rfl ?_
  refine .optional nofun hschema rfl ?_
  exact .optional nofun hevaluation rfl .done

/-- What the document says is resolved to the prompt. -/
theorem resolve_draft (hp : p.Valid) (hwf : p.WellFormed)
    (hprinted : ∀ j ∈ p.printed, Json.ofPaddedText? j.compact = some j) :
    p.draft.resolve o = .ok p := by
  have hvalues : o.checkValues p.draft = .ok () := by
    refine Origin.checkValues_eq_ok_iff.mpr ⟨hp.name, ?_, hp.temperature, hp.model⟩
    have h := hp.version
    simp only [Prompt.draft]
    omega
  -- a message is written in a way that nothing has to be resolved
  have hmessage : ∀ m, o.resolveMessage m.draft = .ok m := Origin.resolveMessage_draft
  have hfewShot : o.resolveList (.noMessages "few_shot_messages") o.resolveMessage
      p.draft.fewShot = .ok p.fewShot := Origin.resolveList_filled (fun m _ => hmessage m) _
  have hfinal : o.resolveList (.noMessages "final_messages") o.resolveMessage
      p.draft.final = .ok p.final := Origin.resolveList_filled (fun m _ => hmessage m) _
  have htool : ∀ t ∈ p.tools, o.resolveTool t.declaration = .ok t := by
    intro t ht
    refine Origin.resolveTool_declaration (hp.tools t ht) (hprinted _ ?_)
    exact List.mem_append_left _ (List.mem_append_right _ (List.mem_map_of_mem ht))
  have htools := Origin.resolveList_filled (o := o) htool .noTools
  have hschema : p.draft.schema.mapM (o.resolveSchema .output) = .ok p.schema := by
    refine optional_mapM_map fun s hs => ?_
    refine Origin.resolveSchema_compact (hp.schema s hs) (hprinted _ ?_) _
    rw [Prompt.printed, hs]
    simp
  have hevaluation : p.draft.evaluation.mapM o.resolveEvaluation = .ok p.evaluation := by
    refine optional_mapM_map fun s hs => ?_
    obtain ⟨hchecks, hcases⟩ := hp.writable hwf hprinted hs
    exact Origin.resolveEvaluation_draft (hp.evaluation s hs).cases hchecks hcases
  -- one step of resolving after the other gives the part of the prompt
  calc p.draft.resolve o
    _ = _ := bind_of_eq_ok hvalues _
    _ = _ := bind_of_eq_ok hfewShot _
    _ = _ := bind_of_eq_ok hfinal _
    _ = _ := bind_of_eq_ok htools _
    _ = _ := bind_of_eq_ok hschema _
    _ = _ := bind_of_eq_ok hevaluation _
    _ = .ok p := rfl

/-- A valid prompt is found again in its document, however the document is spelled: reading it gives
a draft, and the draft is resolved to the very prompt.  Texts that hold values have to give these
values back. -/
theorem parse_document (o : Origin) (f : Format) (hp : p.Valid) (hwf : p.WellFormed)
    (hprinted : ∀ j ∈ p.printed, Json.ofPaddedText? j.compact = some j)
    (hn : p.document.Spelled n) :
    (∃ d, PromptDraft.record.read f.source n = .ok d ∧ d.resolve o = .ok p) ∧
      ∀ text, f.document text = ⟨n, true⟩ → Prompt.parse o f text = .ok p := by
  have hread : PromptDraft.record.read f.source n = .ok p.draft :=
    read_prompt hp hwf hprinted hn
  have hresolve := resolve_draft (o := o) hp hwf hprinted
  refine ⟨⟨p.draft, hread, hresolve⟩, fun text htext => ?_⟩
  have hdocument : f.read o.file text PromptDraft.record.read = .ok p.draft := by
    simp only [Format.read, htext, Document.read, hread, bind, Except.bind]
    rfl
  rw [Prompt.parse, hdocument]
  exact hresolve

end Prompts

/-! ## A prompt with a part of every kind -/

/-- A schema for null. -/
def nullSchema : Schema := ⟨.object [("type", .string "null")]⟩

/-- Whether what was read is the schema for null. -/
def isNullSchema : Option Json → Bool
  | some (.object [(key, .string t)]) => key == "type" && t == "null"
  | _ => false

/-- Its text gives it back. -/
theorem ofPaddedText?_nullSchema :
    Json.ofPaddedText? nullSchema.value.compact = some nullSchema.value := by
  have hread : isNullSchema (Json.ofPaddedText? nullSchema.value.compact) = true := by
    decide +kernel
  unfold isNullSchema at hread
  split at hread
  · next key t heq =>
    obtain ⟨rfl, rfl⟩ : key = "type" ∧ t = "null" := by simpa using hread
    exact heq
  · cases hread

/-- A forecast with a call in its last message, a tool, a schema, and checks of a suite and of its
only case. -/
def forecast : Prompt where
  name := "forecast"
  version := 3
  model := some "open@small"
  system := ""
  temperature := .finite false 4503599627370496 (-53)
  fewShot := [.user "Rain?" none]
  final := [.assistant "" [⟨"1", "look", .object [("far", .bool true)]⟩]]
  tools := [⟨"look", "Looks outside.", nullSchema⟩]
  schema := some nullSchema
  evaluation := some {
    checks := [⟨some "calm", .custom "tone" (some "open@large") [("strict", .null)]⟩]
    cases := [⟨none, [.user "Sun?" (some "Ada")],
      [⟨none, .profanity none ["bad"]⟩, ⟨none, .structuredOutput nullSchema.value⟩]⟩] }

/-- The schema has a type. -/
theorem typed_nullSchema : nullSchema.Typed := ⟨_, _, rfl, rfl⟩

/-- The forecast keeps the rules. -/
theorem valid_forecast : forecast.Valid where
  name := ⟨'f', by decide, by decide⟩
  version := by decide
  temperature := isTemperature_iff.mp (by decide +kernel)
  model := by
    rintro _ ⟨⟩
    decide
  schema := by
    rintro _ ⟨⟩
    exact typed_nullSchema
  tools := by
    intro t ht
    obtain rfl := List.mem_singleton.mp ht
    exact typed_nullSchema
  evaluation := by
    rintro _ ⟨⟩
    refine ⟨List.cons_ne_nil _ _, ?_, ?_, ?_⟩
    · simp
    · simp [CheckKind.Proper, CheckKind.builtinIds, Members.keys]
    · simp [CheckKind.Proper]

/-- Documents can hold its values. -/
theorem wellFormed_forecast : forecast.WellFormed where
  fewShot := by simp [forecast, Message.WellFormed]
  final := by simp [forecast, Message.WellFormed, Json.WellFormed, Json.WellFormedMembers,
    Members.keys]
  evaluation := by
    rintro _ ⟨⟩
    constructor
    · simp [Message.WellFormed]
    · simp [EvaluationSuite.allChecks, CheckKind.WellFormed, Json.WellFormed,
        Json.WellFormedMembers, Members.keys]

/-- A place for the forecast. -/
def forecastOrigin : Origin where
  file := "forecast.json"
  files := ⟨[], []⟩

/-- The forecast is found again in the tree of its document. -/
theorem parse_document_forecast :
    forecast.Valid ∧ forecast.WellFormed ∧
      (∀ j ∈ forecast.printed, Json.ofPaddedText? j.compact = some j) ∧
      forecast.document.Spelled (Node.ofJson forecast.document) ∧
      (∃ d, PromptDraft.record.read .json (Node.ofJson forecast.document) = .ok d ∧
        d.resolve forecastOrigin = .ok forecast) ∧
      ∀ text, Document.ofJsonText text = ⟨Node.ofJson forecast.document, true⟩ →
        Prompt.parse forecastOrigin .json text = .ok forecast := by
  have hprinted : ∀ j ∈ forecast.printed, Json.ofPaddedText? j.compact = some j := by
    intro j hj
    obtain rfl : j = nullSchema.value := by
      simpa [forecast, Prompt.printed, EvaluationSuite.allChecks, CheckKind.printed] using hj
    exact ofPaddedText?_nullSchema
  have hspelled := Json.spelled_ofJson forecast.document
  exact ⟨valid_forecast, wellFormed_forecast, hprinted, hspelled,
    parse_document forecastOrigin .json valid_forecast wellFormed_forecast hprinted hspelled⟩

end Promptwright
