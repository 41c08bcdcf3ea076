import Promptwright.Prompt.Load
import Promptwright.Proofs.Prompt.SchemaForms

/-!
# Where schemas stand in documents

A document has schemas for the parameters of tools and for the answer, and its checks, for all cases
or for one, may expect values.  At each of these places the three forms of a value can be exchanged:
the document still stands for the same prompt.

## Key results

- `Origin.SameDocument`: documents that give the same schemas and values
- `PromptDraft.MeanSame.resolve_eq`: drafts for the same prompt
- `Origin.SameDocument.parse_eq`: documents for the same prompt
- `schema_forms_mean_same`: the three forms at all places
-/

namespace Promptwright

variable {o : Origin} {src : Source} {n n' : Node}

/-! ## Documents that give the same -/

namespace Origin

/-- Two parts of documents that give the same schema, in whatever form. -/
def SameSchema (o : Origin) (n n' : Node) : Prop :=
  ∃ value j j', (Schema.mk value).Typed ∧ n.json = .ok j ∧ n'.json = .ok j' ∧
    o.Gives value j ∧ o.Gives value j'

/-- Two parts of documents that list the same checks. -/
def SameCheckList (o : Origin) (n n' : Node) : Prop :=
  ∃ j j', n.json = .ok j ∧ n'.json = .ok j' ∧ o.SameChecks j j'

/-- Two tools whose parameters are the same schema. -/
def SameTool (o : Origin) : Node → Node → Prop :=
  Node.Varied ToolDeclaration.record.names fun name n n' => name = "parameters" ∧ o.SameSchema n n'

/-- Two cases with the same checks. -/
def SameCase (o : Origin) : Node → Node → Prop :=
  Node.Varied CaseDraft.record.names fun name n n' => name = "checks" ∧ o.SameCheckList n n'

/-- Two evaluations with the same checks, for all cases and for each one. -/
def SameEvaluation (o : Origin) : Node → Node → Prop :=
  Node.Varied EvaluationDraft.record.names fun name n n' =>
    name = "checks" ∧ o.SameCheckList n n' ∨
      name = "evaluations" ∧ Node.VariedList o.SameCase n n'

/-- Two values of a field of a prompt that give the same schemas, and the same expected values of
checks. -/
def SamePart (o : Origin) (name : String) (n n' : Node) : Prop :=
  name = "tools" ∧ Node.VariedList o.SameTool n n' ∨
    name = "schema" ∧ o.SameSchema n n' ∨
    name = "evaluation" ∧ o.SameEvaluation n n'

/-- Two documents that give the same schemas, and the same expected values of checks. -/
def SameDocument (o : Origin) : Node → Node → Prop :=
  Node.Varied PromptDraft.record.names o.SamePart

end Origin

/-! ## Drafts that mean the same -/

/-- A relation that holds of a value and itself does so of values that may be missing. -/
theorem optionRel_refl {α : Type} {A : α → α → Prop} (hA : ∀ a, A a a) (x : Option α) :
    Option.Rel A x x := by
  cases x with
  | none => exact .none
  | some a => exact .some (hA a)

/-- Two declarations of the same tool. -/
def ToolDeclaration.MeanSame (o : Origin) : ToolDeclaration → ToolDeclaration → Prop :=
  SameBeside ToolDeclaration.parameters (fun d parameters => { d with parameters }) o.MeanSame

/-- Two lists of the same checks, if there are any. -/
def Origin.ListSame (o : Origin) (x x' : Option Json) : Prop :=
  o.resolveChecks x = o.resolveChecks x'

/-- Two drafts of the same case. -/
def CaseDraft.MeanSame (o : Origin) : CaseDraft → CaseDraft → Prop :=
  SameBeside CaseDraft.checks (fun d checks => { d with checks }) o.ListSame

/-- Two drafts of the same evaluation. -/
def EvaluationDraft.MeanSame (o : Origin) (d d' : EvaluationDraft) : Prop :=
  o.ListSame d.checks d'.checks ∧ List.Forall₂ (CaseDraft.MeanSame o) d.cases d'.cases

/-- What documents may give a prompt in different forms. -/
structure PromptDraft.Given where
  tools : Option (List ToolDeclaration)
  schema : Option Json
  evaluation : Option EvaluationDraft

/-- What a draft of a prompt is given. -/
def PromptDraft.given (d : PromptDraft) : Given := ⟨d.tools, d.schema, d.evaluation⟩

/-- Gives a draft of a prompt something else. -/
def PromptDraft.give (d : PromptDraft) (g : Given) : PromptDraft :=
  { d with tools := g.tools, schema := g.schema, evaluation := g.evaluation }

/-- The same tools, schema and evaluation, if there are any. -/
structure PromptDraft.Given.MeanSame (o : Origin) (g g' : PromptDraft.Given) : Prop where
  tools : Option.Rel (List.Forall₂ (ToolDeclaration.MeanSame o)) g.tools g'.tools
  schema : Option.Rel o.MeanSame g.schema g'.schema
  evaluation : Option.Rel (EvaluationDraft.MeanSame o) g.evaluation g'.evaluation

/-- Two drafts of the same prompt. -/
def PromptDraft.MeanSame (o : Origin) : PromptDraft → PromptDraft → Prop :=
  SameBeside PromptDraft.given PromptDraft.give (PromptDraft.Given.MeanSame o)

/-- A tool is declared like itself. -/
theorem ToolDeclaration.MeanSame.refl (d : ToolDeclaration) : d.MeanSame o d := by
  apply SameBeside.refl (fun _ => rfl)
  exact fun parameters => (rfl : o.resolveJson parameters = _)

/-- A case is drafted like itself. -/
theorem CaseDraft.MeanSame.refl (d : CaseDraft) : d.MeanSame o d := by
  apply SameBeside.refl (fun _ => rfl)
  exact fun checks => (rfl : o.resolveChecks checks = _)

/-- An evaluation is drafted like itself. -/
theorem EvaluationDraft.MeanSame.refl (d : EvaluationDraft) : d.MeanSame o d :=
  ⟨rfl, List.forall₂_same.mpr fun c _ => .refl c⟩

/-- A prompt is drafted like itself. -/
theorem PromptDraft.MeanSame.refl (d : PromptDraft) : d.MeanSame o d := by
  apply SameBeside.refl (fun _ => rfl)
  intro g
  constructor
  · exact optionRel_refl (fun ts => List.forall₂_same.mpr fun t _ => .refl t) _
  · exact optionRel_refl (A := o.MeanSame) (fun _ => rfl) _
  · exact optionRel_refl .refl _

/-! ## What drafts stand for -/

/-- Declarations of the same tool. -/
theorem ToolDeclaration.MeanSame.resolve_eq {d d' : ToolDeclaration} (h : d.MeanSame o d') :
    o.resolveTool d = o.resolveTool d' := by
  obtain ⟨parameters, rfl, hsame⟩ := h
  have hjson : o.resolveJson d.parameters = o.resolveJson parameters := hsame
  simp only [Origin.resolveTool, Origin.resolveSchema, hjson]

/-- Drafts of the same case. -/
theorem CaseDraft.MeanSame.resolve_eq {d d' : CaseDraft} (h : d.MeanSame o d') :
    o.resolveCase d = o.resolveCase d' := by
  obtain ⟨checks, rfl, hsame⟩ := h
  have hchecks : o.resolveChecks d.checks = o.resolveChecks checks := hsame
  simp only [Origin.resolveCase, hchecks]

/-- Drafts of the same evaluation. -/
theorem EvaluationDraft.MeanSame.resolve_eq {d d' : EvaluationDraft} (h : d.MeanSame o d') :
    o.resolveEvaluation d = o.resolveEvaluation d' := by
  obtain ⟨hlist, hcases⟩ := h
  have hchecks : o.resolveChecks d.checks = o.resolveChecks d'.checks := hlist
  have hmap : d.cases.mapM o.resolveCase = d'.cases.mapM o.resolveCase :=
    Both.mapM_eq (hcases.imp fun _ _ hcase => hcase.resolve_eq)
  simp only [Origin.resolveEvaluation, hchecks, hmap, isEmpty_eq_of_forall₂ hcases]

/-- Lists of declarations of the same tools. -/
theorem resolveTools_eq {x x' : Option (List ToolDeclaration)}
    (h : Option.Rel (List.Forall₂ (ToolDeclaration.MeanSame o)) x x') :
    o.resolveList .noTools o.resolveTool x = o.resolveList .noTools o.resolveTool x' := by
  cases h with
  | none => rfl
  | some h =>
    have hmap := Both.mapM_eq (h.imp fun _ _ htool => htool.resolve_eq)
    cases h with
    | nil => rfl
    | cons _ _ => exact hmap

/-- Values that may be missing and stand for the same. -/
theorem mapM_eq_of_rel {α β ε : Type} {A : α → α → Prop} {f : α → Except ε β} {x x' : Option α}
    (h : Option.Rel A x x') (hf : ∀ a a', A a a' → f a = f a') : x.mapM f = x'.mapM f := by
  cases h with
  | none => rfl
  | some h => rw [Option.mapM_some, Option.mapM_some, hf _ _ h]

/-- Drafts of the same prompt. -/
theorem PromptDraft.MeanSame.resolve_eq {d d' : PromptDraft} (h : d.MeanSame o d') :
    d.resolve o = d'.resolve o := by
  obtain ⟨g, rfl, htools, hschema, hevaluation⟩ := h
  have hschemas : d.schema.mapM (o.resolveSchema .output) =
      g.schema.mapM (o.resolveSchema .output) := by
    apply mapM_eq_of_rel hschema
    intro j j' hj
    have hjson : o.resolveJson j = o.resolveJson j' := hj
    rw [Origin.resolveSchema, Origin.resolveSchema, hjson]
  have hevaluations : d.evaluation.mapM o.resolveEvaluation =
      g.evaluation.mapM o.resolveEvaluation :=
    mapM_eq_of_rel hevaluation fun _ _ hsame => hsame.resolve_eq
  have hlists : o.resolveList .noTools o.resolveTool d.tools =
      o.resolveList .noTools o.resolveTool g.tools := resolveTools_eq htools
  simp only [PromptDraft.resolve, hlists, hschemas, hevaluations]
  rfl

/-! ## Reading -/

/-- Where it cannot be told whether there is a value, none can be read. -/
theorem Node.json_ne_ok_of_isGiven {m : Mismatch} (h : n.isGiven = .error m) (j : Json) :
    n.json ≠ .ok j := by
  intro hj
  unfold isGiven at h
  split at h
  · cases h
  · cases hj
  · cases h
  · next s =>
    split at h
    · cases h
    split at h
    · cases h
    next tag htag =>
      split at h
      · cases h
      next hnull =>
        split at h
        · cases h
        -- the tag asks for null, and the text is another one
        next hword =>
          obtain rfl : tag = Scalar.nullTag := not_not.mp hnull
          have hatom : s.atom? = .error "null" := by
            simp [Scalar.atom?, htag, hword, Scalar.nullTag, Scalar.boolTag, Scalar.intTag,
              Scalar.floatTag]
          have hlocal : Scalar.isLocalTag s.tag = false := by
            rw [htag]
            decide
          rw [json, hlocal, Scalar.atom, hatom] at hj
          cases hj
  · cases h

/-- A value that is not null is given. -/
theorem Node.isGiven_of_json {j : Json} (h : n.json = .ok j) (hj : j ≠ .null) :
    n.isGiven = .ok true := by
  cases hgiven : n.isGiven with
  | ok given =>
    cases given with
    | true => rfl
    | false =>
      rw [json_of_not_given hgiven] at h
      exact absurd (Except.ok.inj h).symm hj
  | error m => exact absurd h (json_ne_ok_of_isGiven hgiven j)

section Reading

variable (hsrc : ∀ yaml, src ≠ .aside yaml)

/-- Forms of the same schema mean the same. -/
theorem Origin.SameSchema.readSame (h : o.SameSchema n n') : o.ReadSame n n' := by
  obtain ⟨value, j, j', htyped, hj, hj', hgives, hgives'⟩ := h
  have hplain := Origin.plain_of_typed htyped
  rw [Origin.ReadSame, hj, hj']
  apply Both.ok
  rw [Origin.MeanSame, Origin.resolveJson_of_gives hplain hgives,
    Origin.resolveJson_of_gives hplain hgives']

/-- Forms of the same schema are all given. -/
theorem Origin.SameSchema.isGiven_eq (h : o.SameSchema n n') : n.isGiven = n'.isGiven := by
  obtain ⟨value, j, j', htyped, hj, hj', hgives, hgives'⟩ := h
  -- no schema with a type is null, and neither is a text or a reference
  have hnull : ∀ {j}, o.Gives value j → j ≠ .null := by
    rintro j hgives rfl
    cases hgives
    obtain ⟨ms, -, hvalue, -⟩ := htyped
    cases hvalue
  rw [Node.isGiven_of_json hj (hnull hgives), Node.isGiven_of_json hj' (hnull hgives')]

/-- The same lists of checks, if they are given. -/
theorem Origin.SameCheckList.both_optional (h : o.SameCheckList n n') :
    Both Eq o.ListSame (n.optional Node.json) (n'.optional Node.json) := by
  obtain ⟨j, j', hj, hj', hsame⟩ := h
  have hchecks := Origin.resolveChecks_eq_of_same hsame
  have hnull : j ≠ .null ∧ j' ≠ .null := by cases hsame <;> exact ⟨nofun, nofun⟩
  have hgiven := Node.isGiven_of_json hj hnull.1
  have hgiven' := Node.isGiven_of_json hj' hnull.2
  simp only [Node.optional, hgiven, hgiven', hj, hj', bind, Except.bind, if_true]
  exact .ok hchecks

include hsrc

/-- The same tools are declared alike. -/
theorem Origin.SameTool.both_read (h : o.SameTool n n') :
    Both Eq (ToolDeclaration.MeanSame o) (ToolDeclaration.record.read src n)
      (ToolDeclaration.record.read src n') := by
  have hother : ∀ name ≠ "parameters", ∀ n n', ¬ (name = "parameters" ∧ o.SameSchema n n') :=
    fun _ hne _ _ h => hne h.1
  have hread : ∀ n n', "parameters" = "parameters" ∧ o.SameSchema n n' →
      Both Eq o.MeanSame n.json n'.json := fun _ _ h => h.2.readSame
  apply Record.both_read ⟨.refl, _⟩ hsrc h
  -- name and description are beside the parameters
  simp only [ToolDeclaration.record, List.forall_mem_cons, List.not_mem_nil, false_implies,
    implies_true, and_true]
  refine ⟨?_, ?_, ?_⟩
  · exact .beside (hother _ (by decide)) (fun _ _ _ => rfl) fun _ _ => rfl
  · exact .beside (hother _ (by decide)) (fun _ _ _ => rfl) fun _ _ => rfl
  · exact .place (fun _ => rfl) hread (fun _ _ _ => rfl) fun _ _ => rfl

/-- The same cases are drafted alike. -/
theorem Origin.SameCase.both_read (h : o.SameCase n n') :
    Both Eq (CaseDraft.MeanSame o) (CaseDraft.record.read src n) (CaseDraft.record.read src n') := by
  have hother : ∀ name ≠ "checks", ∀ n n', ¬ (name = "checks" ∧ o.SameCheckList n n') :=
    fun _ hne _ _ h => hne h.1
  have hread : ∀ n n', "checks" = "checks" ∧ o.SameCheckList n n' →
      Both Eq o.ListSame (n.optional Node.json) (n'.optional Node.json) :=
    fun _ _ h => h.2.both_optional
  apply Record.both_read ⟨.refl, _⟩ hsrc h
  simp only [CaseDraft.record, List.forall_mem_cons, List.not_mem_nil, false_implies,
    implies_true, and_true]
  refine ⟨?_, ?_, ?_⟩
  · exact .beside (hother _ (by decide)) (fun _ _ _ => rfl) fun _ _ => rfl
  · exact .beside (hother _ (by decide)) (fun _ _ _ => rfl) fun _ _ => rfl
  · exact .place (fun _ => rfl) hread (fun _ _ _ => rfl) fun _ _ => rfl

/-- The same evaluations are drafted alike. -/
theorem Origin.SameEvaluation.both_read (h : o.SameEvaluation n n') :
    Both Eq (EvaluationDraft.MeanSame o) (EvaluationDraft.record.read src n)
      (EvaluationDraft.record.read src n') := by
  apply Record.both_read _ hsrc h
  refine ⟨.refl, List.forall_mem_cons.mpr ⟨.of_read (A := o.ListSame) (fun _ => rfl) ?_ ?_, ?_⟩⟩
  · rintro n n' (⟨-, h⟩ | ⟨hname, -⟩)
    · exact h.both_optional
    · exact absurd hname (by decide)
  · exact fun _ _ _ _ hd hx => ⟨hx, hd.2⟩
  refine List.forall_mem_singleton.mpr
    (.of_read (A := List.Forall₂ (CaseDraft.MeanSame o)) ?_ ?_ ?_)
  · exact fun cs => List.forall₂_same.mpr fun c _ => .refl c
  · rintro n n' (⟨hname, -⟩ | ⟨-, h⟩)
    · exact absurd hname (by decide)
    · exact Node.both_list h fun _ _ hcase => Origin.SameCase.both_read hsrc hcase
  · exact fun _ _ _ _ hd hx => ⟨hd.1, hx⟩

/-- The same tools, if there are any. -/
theorem both_tools (h : Node.VariedList o.SameTool n n') :
    Both Eq (Option.Rel (List.Forall₂ (ToolDeclaration.MeanSame o)))
      (n.optional (Node.list (ToolDeclaration.record.read src)))
      (n'.optional (Node.list (ToolDeclaration.record.read src))) := by
  apply Node.both_optional h.isGiven_eq
  exact Node.both_list h fun _ _ htool => Origin.SameTool.both_read hsrc htool

/-- The fields of prompts keep drafts alike. -/
theorem carries_prompt :
    PromptDraft.record.Carries src o.SamePart (PromptDraft.MeanSame o) := by
  have hother : ∀ name ∉ ["tools", "schema", "evaluation"], ∀ n n', ¬ o.SamePart name n n' := by
    rintro name hname n n' (⟨rfl, -⟩ | ⟨rfl, -⟩ | ⟨rfl, -⟩) <;> simp at hname
  refine ⟨.refl, ?_⟩
  simp only [PromptDraft.record, List.forall_mem_cons, List.not_mem_nil, false_implies,
    implies_true, and_true]
  refine ⟨?_, ?_, ?_, ?_, ?_, ?_, ?_, ?tools, ?schema, ?evaluation⟩
  case tools =>
    refine .of_read (A := Option.Rel (List.Forall₂ (ToolDeclaration.MeanSame o))) ?_ ?_ ?_
    · exact optionRel_refl fun ts => List.forall₂_same.mpr fun t _ => .refl t
    · rintro n n' (⟨-, h⟩ | ⟨hname, -⟩ | ⟨hname, -⟩)
      · exact both_tools hsrc h
      · exact absurd hname (by decide)
      · exact absurd hname (by decide)
    · rintro d _ x x' ⟨g, rfl, h⟩ hx
      exact ⟨{ g with tools := x' }, rfl, hx, h.schema, h.evaluation⟩
  case schema =>
    refine .of_read (A := Option.Rel o.MeanSame) (optionRel_refl fun _ => rfl) ?_ ?_
    · rintro n n' (⟨hname, -⟩ | ⟨-, h⟩ | ⟨hname, -⟩)
      · exact absurd hname (by decide)
      · exact Node.both_optional h.isGiven_eq h.readSame
      · exact absurd hname (by decide)
    · rintro d _ x x' ⟨g, rfl, h⟩ hx
      exact ⟨{ g with schema := x' }, rfl, h.tools, hx, h.evaluation⟩
  case evaluation =>
    refine .of_read (A := Option.Rel (EvaluationDraft.MeanSame o)) (optionRel_refl .refl) ?_ ?_
    · rintro n n' (⟨hname, -⟩ | ⟨hname, -⟩ | ⟨-, h⟩)
      · exact absurd hname (by decide)
      · exact absurd hname (by decide)
      · exact Node.both_optional h.isGiven_eq (Origin.SameEvaluation.both_read hsrc h)
    · rintro d _ x x' ⟨g, rfl, h⟩ hx
      exact ⟨{ g with evaluation := x' }, rfl, h.tools, h.schema, hx⟩
  -- all other fields have places of their own
  all_goals exact .beside (hother _ (by decide)) (fun _ _ _ => rfl) fun _ _ => rfl

end Reading

/-- A document that gives the same as another one stands for the same prompt, and if it is refused then
for the same reason. -/
theorem Origin.SameDocument.parse_eq {f : Format} {text text' : String}
    (hroot : o.SameDocument (f.document text).root (f.document text').root)
    (hcomplete : (f.document text).complete = (f.document text').complete) :
    Prompt.parse o f text = Prompt.parse o f text' := by
  have hsrc : ∀ yaml, f.source ≠ .aside yaml := by cases f <;> exact nofun
  -- the two readings fail together, or give drafts that mean the same
  have hread := Record.both_read (carries_prompt hsrc) hsrc hroot
  have hdocument : Both Eq (PromptDraft.MeanSame o)
      ((f.document text).read (PromptDraft.record.read f.source))
      ((f.document text').read (PromptDraft.record.read f.source)) := by
    apply hread.bind
    intro d d' hd
    rw [hcomplete]
    split
    · exact .ok hd
    · exact .error rfl
  unfold Prompt.parse Format.read
  generalize (f.document text).read (PromptDraft.record.read f.source) = x at hdocument ⊢
  generalize (f.document text').read (PromptDraft.record.read f.source) = y at hdocument ⊢
  cases hdocument with
  | ok hd => exact hd.resolve_eq
  | error hm => rw [hm]

/-- A schema can be given by itself, as a text that holds it with any white space around it, or as a
reference to a file next to the document, and so can a value that a check expects, if it is no text and
no reference.  Whichever form it is, and wherever it stands, the document stands for the same prompt.
The text that is written for a value is one that holds it, if it can be read back. -/
theorem schema_forms_mean_same (o : Origin) :
    (∀ (value j : Json) (place : SchemaPlace), (Schema.mk value).Typed → o.Gives value j →
      o.resolveSchema place j = .ok ⟨value⟩) ∧
    (∀ value j : Json, value.Plain → o.Gives value j → o.resolveJson j = .ok value) ∧
    (∀ (value : Json) (before after : String), Json.ofText? value.compact = some value →
      (∀ c ∈ before.toList, Text.isBlank c = true) → (∀ c ∈ after.toList, Text.isBlank c = true) →
      value.HeldBy (before ++ value.compact ++ after)) ∧
    ∀ (f : Format) (text text' : String),
      o.SameDocument (f.document text).root (f.document text').root →
      (f.document text).complete = (f.document text').complete →
      Prompt.parse o f text = Prompt.parse o f text' := by
  refine ⟨?_, ?_, ?_, ?_⟩
  · exact fun value j place hvalue hgives => Origin.resolveSchema_of_gives hvalue hgives place
  · exact fun value j hvalue hgives => Origin.resolveJson_of_gives hvalue hgives
  · exact fun value before after hread hbefore hafter => Json.heldBy_compact hread hbefore hafter
  · exact fun f text text' hroot hcomplete => hroot.parse_eq hcomplete

/-! ## A document in two forms -/

/-- A schema for null. -/
def nothing : Json := .object [("type", .string "null")]

/-- A place for a document, with the schema in a file next to it. -/
def snowOrigin : Origin where
  file := "prompts/snow.json"
  files := {
    entries := [
      (["prompts"], .directory), (["prompts", "null.json"], .file (nothing.compact ++ "\n").toUTF8)]
    current := [] }

/-- A document with a schema and a tool, which give the schema by itself. -/
def snow : String :=
  "\x7b\"name\":\"snow\",\"system_prompt\":\"\",\"schema\":\x7b\"type\":\"null\"\x7d," ++
  "\"tools\":[\x7b\"name\":\"look\",\"description\":\"\"," ++
  "\"parameters\":\x7b\"type\":\"null\"\x7d\x7d]\x7d"

/-- The same document with a reference for the schema, and a text for the parameters of the tool. -/
def distantSnow : String :=
  "\x7b\"name\":\"snow\",\"system_prompt\":\"\",\"schema\":\x7b\"$ref\":\"null.json\"\x7d," ++
  "\"tools\":[\x7b\"name\":\"look\",\"description\":\"\"," ++
  "\"parameters\":\" \x7b\\\"type\\\":\\\"null\\\"\x7d\\n\"\x7d]\x7d"

/-- The tree of the document, with a schema and parameters of the tool. -/
def snowTree (schema parameters : Node) : Node :=
  .mapping false [
    (.atom (.string "name"), .atom (.string "snow")),
    (.atom (.string "system_prompt"), .atom (.string "")),
    (.atom (.string "schema"), schema),
    (.atom (.string "tools"), .sequence false [.mapping false [
      (.atom (.string "name"), .atom (.string "look")),
      (.atom (.string "description"), .atom (.string "")),
      (.atom (.string "parameters"), parameters)]])]

/-- The prompt that both documents stand for. -/
def snowPrompt : Prompt where
  name := "snow"
  system := ""
  schema := some ⟨nothing⟩
  tools := [⟨"look", "", ⟨nothing⟩⟩]

/-- The same schemas make the same documents. -/
theorem sameDocument_snowTree {schema schema' parameters parameters' : Node}
    (hschema : o.SameSchema schema schema') (hparameters : o.SameSchema parameters parameters') :
    o.SameDocument (snowTree schema parameters) (snowTree schema' parameters') := by
  have htool : o.SameTool
      (.mapping false [
        (.atom (.string "name"), .atom (.string "look")),
        (.atom (.string "description"), .atom (.string "")),
        (.atom (.string "parameters"), parameters)])
      (.mapping false [
        (.atom (.string "name"), .atom (.string "look")),
        (.atom (.string "description"), .atom (.string "")),
        (.atom (.string "parameters"), parameters')]) :=
    .mapping (.cons ⟨rfl, .inl rfl⟩ (.cons ⟨rfl, .inl rfl⟩
      (.cons ⟨rfl, .inr ⟨_, rfl, rfl, hparameters⟩⟩ .nil)))
  have hschemaPart : o.SamePart "schema" schema schema' := .inr (.inl ⟨rfl, hschema⟩)
  have htoolsPart : o.SamePart "tools" (.sequence false [_]) (.sequence false [_]) :=
    .inl ⟨rfl, .sequence (.cons htool .nil)⟩
  exact .mapping (.cons ⟨rfl, .inl rfl⟩ (.cons ⟨rfl, .inl rfl⟩
    (.cons ⟨rfl, .inr ⟨_, rfl, hschemaPart⟩⟩ (.cons ⟨rfl, .inr ⟨_, rfl, htoolsPart⟩⟩ .nil))))

-- the readers go over the texts one character after the other
set_option maxRecDepth 4000 in
/-- The tree of the first document. -/
theorem ofJsonText_snow :
    Document.ofJsonText snow = ⟨snowTree (.ofJson nothing) (.ofJson nothing), true⟩ := by
  cbv

set_option maxRecDepth 4000 in
/-- The tree of the second document. -/
theorem ofJsonText_distantSnow :
    Document.ofJsonText distantSnow =
      ⟨snowTree (.mapping false [(.atom (.string "$ref"), .atom (.string "null.json"))])
        (.atom (.string " \x7b\"type\":\"null\"\x7d\n")), true⟩ := by
  cbv

/-- The prompt of the first document. -/
theorem parse_snow : Prompt.parse snowOrigin .json snow = .ok snowPrompt := by
  have hdocument : Format.json.document snow = _ := ofJsonText_snow
  rw [Prompt.parse, Format.read, hdocument]
  rfl

/-- Both documents stand for the same prompt, and so do the forms that are in them. -/
theorem schema_forms_mean_same_snow :
    snowOrigin.resolveSchema .output (.object [("$ref", .string "null.json")]) = .ok ⟨nothing⟩ ∧
      snowOrigin.resolveJson (.object [("path", .string "null.json")]) = .ok nothing ∧
      nothing.HeldBy (" " ++ nothing.compact ++ "\n") ∧
      Prompt.parse snowOrigin .json snow = .ok snowPrompt ∧
      Prompt.parse snowOrigin .json distantSnow = .ok snowPrompt := by
  obtain ⟨hresolveSchema, hresolveJson, hcompact, hparse⟩ := schema_forms_mean_same snowOrigin
  have htyped : (Schema.mk nothing).Typed := ⟨_, _, rfl, rfl⟩
  have hread : Json.ofText? nothing.compact = some nothing := by cbv
  -- the texts are short, and so are looked through character by character
  have hspace : ∀ c ∈ " ".toList, Text.isBlank c = true := List.all_eq_true.mp rfl
  have hline : ∀ c ∈ "\n".toList, Text.isBlank c = true := List.all_eq_true.mp rfl
  have hempty : ∀ c ∈ "".toList, Text.isBlank c = true := List.all_eq_true.mp rfl
  have hpadded : nothing.HeldBy (" " ++ nothing.compact ++ "\n") :=
    hcompact nothing " " "\n" hread hspace hline
  have hheld : nothing.HeldBy (nothing.compact ++ "\n") :=
    hcompact nothing "" "\n" hread hempty hline
  have hfile : snowOrigin.files.readText (Path.join snowOrigin.directory "null.json") =
      .ok (nothing.compact ++ "\n") := by decide +kernel
  have hgives : ∀ key, key = "$ref" ∨ key = "path" →
      snowOrigin.Gives nothing (.object [(key, .string "null.json")]) := fun key hkey =>
    .file hkey (by decide) hfile hheld
  refine ⟨?_, ?_, hpadded, parse_snow, ?_⟩
  · exact hresolveSchema _ _ _ htyped (hgives _ (.inl rfl))
  · exact hresolveJson _ _ (Origin.plain_of_typed htyped) (hgives _ (.inr rfl))
  · have htrees : snowOrigin.SameDocument (Document.ofJsonText snow).root
        (Document.ofJsonText distantSnow).root := by
      rw [ofJsonText_snow, ofJsonText_distantSnow]
      apply sameDocument_snowTree
      · exact ⟨nothing, _, _, htyped, rfl, rfl, .itself, hgives _ (.inl rfl)⟩
      · exact ⟨nothing, _, _, htyped, rfl, rfl, .itself, .text hpadded⟩
    have hcomplete :
        (Document.ofJsonText snow).complete = (Document.ofJsonText distantSnow).complete := by
      rw [ofJsonText_snow, ofJsonText_distantSnow]
    have hsame : Prompt.parse snowOrigin .json snow = Prompt.parse snowOrigin .json distantSnow :=
      hparse .json snow distantSnow htrees hcomplete
    exact hsame.symm.trans parse_snow

end Promptwright
