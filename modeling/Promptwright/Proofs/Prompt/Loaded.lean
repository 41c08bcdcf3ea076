import Promptwright.Prompt.Load
import Promptwright.Proofs.Prompt.Valid

/-!
# Prompts and their documents

A prompt that is read from a document keeps all rules, and nothing in it is lost, added or moved:
its messages, tools, cases and checks are those of the document, one for each item and in the order
of the items.

## Key results

- `Prompt.OfDocument`: the items of a document and what they stand for
- `valid_of_parse`: prompts keep the rules, and the order of their documents
-/

namespace Promptwright

/-! ## What items stand for -/

/-- The items that a record with fields of some names finds in the part of a document with a name;
none if there is no such part. -/
def Node.itemsAt (n : Node) (names : List String) (name : String) : List Node :=
  ((n.part? names name).map Node.items).getD []

section Items

variable (o : Origin) (src : Source)

/-- A message that an item of a document stands for. -/
def MessageOf (item : Node) (m : Message) : Prop :=
  ∃ d, MessageDraft.read src item = .ok d ∧ o.resolveMessage d = .ok m

/-- A tool that an item of a document stands for. -/
def ToolOf (item : Node) (t : Tool) : Prop :=
  ∃ d, ToolDeclaration.record.read src item = .ok d ∧ o.resolveTool d = .ok t

/-- A case that an item of a document stands for. -/
structure CaseOf (item : Node) (c : EvaluationCase) : Prop where
  messages : List.Forall₂ (MessageOf o src) (item.itemsAt CaseDraft.record.names "messages")
    c.messages
  checks : o.ChecksOf (item.part? CaseDraft.record.names "checks") c.checks

/-- An evaluation that a part of a document stands for. -/
structure SuiteOf (part : Node) (s : EvaluationSuite) : Prop where
  checks : o.ChecksOf (part.part? EvaluationDraft.record.names "checks") s.checks
  cases : List.Forall₂ (CaseOf o src) (part.itemsAt EvaluationDraft.record.names "evaluations")
    s.cases

/-- A prompt that a document stands for: one message, tool and case for each item, in the order of
the items, and an evaluation just if there is one. -/
structure Prompt.OfDocument (root : Node) (p : Prompt) : Prop where
  fewShot : List.Forall₂ (MessageOf o src)
    (root.itemsAt PromptDraft.record.names "few_shot_messages") p.fewShot
  final : List.Forall₂ (MessageOf o src)
    (root.itemsAt PromptDraft.record.names "final_messages") p.final
  tools : List.Forall₂ (ToolOf o src) (root.itemsAt PromptDraft.record.names "tools") p.tools
  evaluation : ∀ s, p.evaluation = some s →
    ∃ part, root.part? PromptDraft.record.names "evaluation" = some part ∧ SuiteOf o src part s
  noEvaluation : p.evaluation = none →
    ∀ part, root.part? PromptDraft.record.names "evaluation" = some part →
      part.isGiven = .ok false

end Items

/-! ## Places of fields -/

section Places

attribute [local simp] PromptDraft.record EvaluationDraft.record CaseDraft.record Field.needed
  Field.neededIn Field.spare Field.optional Field.optionalIn

/-- The place of messages before the conversation. -/
theorem keeps_fewShot : PromptDraft.record.Keeps "few_shot_messages" PromptDraft.fewShot
    fun src n => n.optional (Node.list (MessageDraft.read src)) where
  names := by decide
  sets := by simp
  keeps := by simp

/-- The place of messages after it. -/
theorem keeps_final : PromptDraft.record.Keeps "final_messages" PromptDraft.final
    fun src n => n.optional (Node.list (MessageDraft.read src)) where
  names := by decide
  sets := by simp
  keeps := by simp

/-- The place of tools. -/
theorem keeps_tools : PromptDraft.record.Keeps "tools" PromptDraft.tools
    fun src n => n.optional (Node.list (ToolDeclaration.record.read src)) where
  names := by decide
  sets := by simp
  keeps := by simp

/-- The place of the evaluation. -/
theorem keeps_evaluation : PromptDraft.record.Keeps "evaluation" PromptDraft.evaluation
    fun src n => n.optional (EvaluationDraft.record.read src) where
  names := by decide
  sets := by simp
  keeps := by simp

/-- The place of the checks of an evaluation. -/
theorem keeps_suiteChecks : EvaluationDraft.record.Keeps "checks" EvaluationDraft.checks
    fun _ n => n.optional Node.json where
  names := by decide
  sets := by simp
  keeps := by simp

/-- The place of its cases. -/
theorem keeps_cases : EvaluationDraft.record.Keeps "evaluations" EvaluationDraft.cases
    fun src => Node.list (CaseDraft.record.read src) where
  names := by decide
  sets := by simp
  keeps := by simp

/-- The place of the messages of a case. -/
theorem keeps_messages : CaseDraft.record.Keeps "messages" CaseDraft.messages
    fun src => Node.list (MessageDraft.read src) where
  names := by decide
  sets := by simp
  keeps := by simp

/-- The place of its checks. -/
theorem keeps_caseChecks : CaseDraft.record.Keeps "checks" CaseDraft.checks
    fun _ n => n.optional Node.json where
  names := by decide
  sets := by simp
  keeps := by simp

end Places

/-! ## Lists -/

section Lists

variable {α β : Type} {o : Origin} {part : Option Node} {read : Node → Reading α}
  {resolve : α → Except LoadError β}

/-- The items of a part that must be a list. -/
theorem forall₂_of_readPart {as : List α} {bs : List β}
    (h : Node.ReadPart (Node.list read) [] part as)
    (hbs : List.Forall₂ (fun a b => resolve a = .ok b) as bs) :
    List.Forall₂ (fun n b => ∃ a, read n = .ok a ∧ resolve a = .ok b)
      ((part.map Node.items).getD []) bs := by
  cases h with
  | missing =>
    cases hbs
    exact .nil
  | given h => exact forall₂_comp (Node.forall₂_of_list h) hbs

/-- What became of a list that may be missing, item by item. -/
theorem forall₂_of_resolveList {ifEmpty : Flaw} {x : Option (List α)} {bs : List β}
    (h : o.resolveList ifEmpty resolve x = .ok bs) :
    List.Forall₂ (fun a b => resolve a = .ok b) (x.getD []) bs := by
  unfold Origin.resolveList at h
  split at h
  · cases h
    exact .nil
  · cases h
  · exact mapM_eq_ok h

/-- The items of a part that may be missing. -/
theorem forall₂_of_optional_list {ifEmpty : Flaw} {x : Option (List α)} {bs : List β}
    (hx : Node.ReadPart (fun n => n.optional (Node.list read)) none part x)
    (h : o.resolveList ifEmpty resolve x = .ok bs) :
    List.Forall₂ (fun n b => ∃ a, read n = .ok a ∧ resolve a = .ok b)
      ((part.map Node.items).getD []) bs := by
  have hbs := forall₂_of_resolveList h
  cases hx with
  | missing => exact forall₂_of_readPart .missing hbs
  | @given n _ hx =>
    obtain ⟨hgiven, rfl⟩ | ⟨as, -, rfl, has⟩ := Node.optional_eq_ok hx
    · -- null is no list, so there are no items either
      cases hbs
      cases n with
      | sequence _ _ => cases hgiven
      | absent | fault | atom _ | scalar _ | mapping _ _ => exact .nil
    · exact forall₂_of_readPart (.given has) hbs

/-- A value that may be missing is still missing afterwards, or has become another one. -/
theorem optional_mapM_eq_ok {x : Option α} {y : Option β} (h : x.mapM resolve = .ok y) :
    (x = none ∧ y = none) ∨ ∃ a b, x = some a ∧ y = some b ∧ resolve a = .ok b := by
  cases x with
  | none =>
    cases h
    exact .inl ⟨rfl, rfl⟩
  | some a =>
    obtain ⟨b, hb, h⟩ := bind_eq_ok h
    cases h
    exact .inr ⟨a, b, rfl, rfl, hb⟩

end Lists

/-! ## Parts of prompts -/

variable {o : Origin} {src : Source}

/-- A case stands for its item. -/
theorem caseOf_of_resolve {n : Node} {d : CaseDraft} {c : EvaluationCase}
    (hsrc : ∀ yaml, src ≠ .aside yaml) (hd : CaseDraft.record.read src n = .ok d)
    (h : o.resolveCase d = .ok c) :
    CaseOf o src n c ∧ c.messages ≠ [] ∧ ∀ k ∈ c.checks, k.kind.Proper := by
  unfold Origin.resolveCase at h
  split at h
  · cases h
  · next hne =>
    obtain ⟨messages, hmessages, h⟩ := bind_eq_ok h
    obtain ⟨checks, hchecks, h⟩ := bind_eq_ok h
    cases h
    -- what the draft holds comes from the parts of the item
    have hmessagesPart := Record.readPart_of_read keeps_messages (by decide) hsrc hd
    have hchecksPart := Record.readPart_of_read keeps_caseChecks (by decide) hsrc hd
    obtain ⟨hchecksOf, hproper⟩ := Origin.checksOf_of_resolveChecks hchecksPart hchecks
    have hmessages := mapM_eq_ok hmessages
    refine ⟨⟨forall₂_of_readPart hmessagesPart hmessages, hchecksOf⟩, ?_, hproper⟩
    rw [isEmpty_eq_of_forall₂ hmessages] at hne
    simpa using hne

/-- An evaluation stands for its part and keeps the rules. -/
theorem suiteOf_of_resolve {n : Node} {d : EvaluationDraft} {s : EvaluationSuite}
    (hsrc : ∀ yaml, src ≠ .aside yaml) (hd : EvaluationDraft.record.read src n = .ok d)
    (h : o.resolveEvaluation d = .ok s) : SuiteOf o src n s ∧ s.Valid := by
  unfold Origin.resolveEvaluation at h
  split at h
  · cases h
  · next hne =>
    obtain ⟨checks, hchecks, h⟩ := bind_eq_ok h
    obtain ⟨cases', hcases, h⟩ := bind_eq_ok h
    cases h
    have hchecksPart := Record.readPart_of_read keeps_suiteChecks (by decide) hsrc hd
    have hcasesPart := Record.readPart_of_read keeps_cases (by decide) hsrc hd
    obtain ⟨hchecksOf, hproper⟩ := Origin.checksOf_of_resolveChecks hchecksPart hchecks
    have hcases := mapM_eq_ok hcases
    have hitems := forall₂_of_readPart hcasesPart hcases
    -- every case comes from an item, which shows all that is to be known of it
    have hof : ∀ c ∈ cases', ∃ item, CaseOf o src item c ∧ c.messages ≠ [] ∧
        ∀ k ∈ c.checks, k.kind.Proper := by
      intro c hc
      obtain ⟨item, -, draft, hread, hresolve⟩ := exists_of_mem_right hitems hc
      exact ⟨item, caseOf_of_resolve hsrc hread hresolve⟩
    constructor
    · refine ⟨hchecksOf, hitems.imp ?_⟩
      rintro item c ⟨draft, hread, hresolve⟩
      exact (caseOf_of_resolve hsrc hread hresolve).1
    · rw [isEmpty_eq_of_forall₂ hcases] at hne
      refine ⟨by simpa using hne, ?_, hproper, ?_⟩
      · intro c hc
        obtain ⟨-, -, hmessages, -⟩ := hof c hc
        exact hmessages
      · intro c hc
        obtain ⟨-, -, -, hchecks⟩ := hof c hc
        exact hchecks

/-- There is an evaluation just if the document has a part for it. -/
theorem suiteOf_of_readPart {part : Option Node} {x : Option EvaluationDraft}
    {y : Option EvaluationSuite} (hsrc : ∀ yaml, src ≠ .aside yaml)
    (hx : Node.ReadPart (fun n => n.optional (EvaluationDraft.record.read src)) none part x)
    (h : x.mapM o.resolveEvaluation = .ok y) :
    (∀ s, y = some s → s.Valid ∧ ∃ n, part = some n ∧ SuiteOf o src n s) ∧
      (y = none → ∀ n, part = some n → n.isGiven = .ok false) := by
  -- nothing was read and there is no suite, or a draft was read and resolved
  obtain ⟨rfl, rfl⟩ | ⟨d, s, rfl, rfl, hs⟩ := optional_mapM_eq_ok h
  · refine ⟨nofun, fun _ n hn => ?_⟩
    subst hn
    obtain _ | hx := hx
    obtain ⟨hgiven, -⟩ | ⟨_, -, heq, -⟩ := Node.optional_eq_ok hx
    · exact hgiven
    · cases heq
  · refine ⟨fun s' hs' => ?_, nofun⟩
    cases hs'
    obtain _ | hx := hx
    obtain ⟨-, heq⟩ | ⟨_, -, heq, hd⟩ := Node.optional_eq_ok hx
    · cases heq
    · cases heq
      obtain ⟨hsuite, hvalid⟩ := suiteOf_of_resolve hsrc hd hs
      exact ⟨hvalid, _, rfl, hsuite⟩

/-- A tool has parameters with a type. -/
theorem typed_of_resolveTool {d : ToolDeclaration} {t : Tool} (h : o.resolveTool d = .ok t) :
    t.parameters.Typed := by
  obtain ⟨parameters, hparameters, h⟩ := bind_eq_ok h
  cases h
  exact Origin.typed_of_resolveSchema hparameters

/-- What a reader of documents returns stands in the tree of the text. -/
theorem read_root_of_read {α : Type} {f : Format} {file text : String}
    {reader : Source → Node → Reading α} {a : α} (h : f.read file text reader = .ok a) :
    reader f.source (f.document text).root = .ok a := by
  unfold Format.read at h
  split at h
  · next ha =>
    cases h
    obtain ⟨a', ha', h⟩ := bind_eq_ok ha
    split at h
    · cases h
      exact ha'
    · cases h
  · cases h

/-! ## Prompts -/

/-- A prompt that is read from the text of a document keeps the rules, and stands for what the
document says, item by item. -/
theorem valid_of_parse {f : Format} {text : String} {p : Prompt} (h : Prompt.parse o f text = .ok p) :
    p.Valid ∧ p.OfDocument o f.source (f.document text).root := by
  obtain ⟨d, hd, h⟩ := bind_eq_ok h
  obtain ⟨⟨⟩, hvalues, h⟩ := bind_eq_ok h
  obtain ⟨fewShot, hfewShot, h⟩ := bind_eq_ok h
  obtain ⟨final, hfinal, h⟩ := bind_eq_ok h
  obtain ⟨tools, htools, h⟩ := bind_eq_ok h
  obtain ⟨schema, hschema, h⟩ := bind_eq_ok h
  obtain ⟨evaluation, hevaluation, h⟩ := bind_eq_ok h
  cases h
  -- whole documents are no parts that were set aside
  have hsrc : ∀ yaml, f.source ≠ .aside yaml := by cases f <;> exact nofun
  have hread := read_root_of_read hd
  have hfewShotPart := Record.readPart_of_read keeps_fewShot (by decide) hsrc hread
  have hfinalPart := Record.readPart_of_read keeps_final (by decide) hsrc hread
  have htoolsPart := Record.readPart_of_read keeps_tools (by decide) hsrc hread
  have hevaluationPart := Record.readPart_of_read keeps_evaluation (by decide) hsrc hread
  obtain ⟨hsome, hnone⟩ := suiteOf_of_readPart hsrc hevaluationPart hevaluation
  obtain ⟨hname, hversion, htemperature, hmodel⟩ := Origin.checkValues_eq_ok_iff.mp hvalues
  have htoolsOf := forall₂_of_optional_list htoolsPart htools
  constructor
  · refine ⟨hname, ?_, htemperature, hmodel, ?_, ?_, fun s hs => (hsome s hs).1⟩
    · dsimp only
      omega
    · intro s hs
      obtain ⟨-, heq⟩ | ⟨j, s', -, heq, hs'⟩ := optional_mapM_eq_ok hschema
      · rw [heq] at hs
        cases hs
      · rw [heq] at hs
        cases hs
        exact Origin.typed_of_resolveSchema hs'
    · intro t ht
      obtain ⟨-, -, draft, -, hresolve⟩ := exists_of_mem_right htoolsOf ht
      exact typed_of_resolveTool hresolve
  · exact ⟨forall₂_of_optional_list hfewShotPart hfewShot,
      forall₂_of_optional_list hfinalPart hfinal, htoolsOf, fun s hs => (hsome s hs).2, hnone⟩

/-- A place for a document without files around it. -/
def alone : Origin where
  file := "rain.json"
  files := ⟨[], []⟩

/-- A document whose schema is a text, and with a custom check for every case. -/
def rain : String :=
  "\x7b\"name\":\"rain\",\"system_prompt\":\"\"," ++
  "\"schema\":\"\x7b\\\"type\\\":\\\"null\\\"\x7d\"," ++
  "\"evaluation\":\x7b\"checks\":\x7b\"tone\":\x7b\"calm\":true\x7d\x7d," ++
  "\"evaluations\":[\x7b\"messages\":[\x7b\"role\":\"user\",\"content\":\"\"\x7d]\x7d]\x7d\x7d"

/-- It is read, valid, and shown item by item. -/
theorem valid_of_parse_rain :
    ∃ p, Prompt.parse alone .json rain = .ok p ∧
      p.Valid ∧ p.OfDocument alone .json (Document.ofJsonText rain).root := by
  have hread : (Prompt.parse alone .json rain).toOption.isSome = true := by decide +kernel
  cases h : Prompt.parse alone .json rain with
  | error e =>
    rw [h] at hread
    cases hread
  | ok p => exact ⟨p, rfl, valid_of_parse h⟩

end Promptwright
