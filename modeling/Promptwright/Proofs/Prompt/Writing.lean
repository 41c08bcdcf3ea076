import Promptwright.Json.Printer
import Promptwright.Prompt.Load
import Promptwright.Proofs.Document.Written
import Promptwright.Proofs.Prompt.Valid

/-!
# Writing prompts

`Prompt.document` writes a prompt as a document.  What is missing or empty is left out, schemas and
expected values are written as texts that hold JSON, and a check is an object with its options
first, and then its model, its name and its id.  The drafts here are what such documents are read
as.

## Key results

- `Prompt.document`: the document of a prompt
- `Prompt.draft`: what the document says
- `Prompt.WellFormed`, `Prompt.printed`: the values in a prompt, and those that are written as texts
-/

namespace Promptwright

open Json (Members given filled)

/-- A list of values. -/
def Json.list {α : Type} (write : α → Json) (as : List α) : Json := .array (as.map write)

/-! ## Messages -/

/-- What a call says. -/
def ToolCall.draft (c : ToolCall) : CallDraft where
  id := c.id
  name := c.name
  arguments := c.arguments

/-- The name of a role. -/
def MessageDraft.Role.name : MessageDraft.Role → String
  | .user => "user"
  | .assistant => "assistant"
  | .tool => "tool"

namespace Message

/-- Who speaks. -/
def speaker : Message → MessageDraft.Role
  | .user .. => .user
  | .assistant .. => .assistant
  | .tool .. => .tool

/-- What a message holds beside its role. -/
def parts : Message → Members
  | .user content name => ("content", .string content) :: given "name" .string name
  | .assistant content calls =>
    ("content", .string content) ::
      given "tool_calls" (Json.list ToolCall.toJson) (filled calls)
  | .tool callId name result isError => [
      ("tool_call_id", .string callId),
      ("tool_name", .string name),
      ("result", result),
      ("is_error", .bool isError)]

/-- The message as a part of a document. -/
def document (m : Message) : Json := .object (("role", .string m.speaker.name) :: m.parts)

/-- What the part says. -/
def draft : Message → MessageDraft
  | .user content name => .user content name
  | .assistant content calls =>
    .assistant (some content) ((filled calls).map (List.map ToolCall.draft))
  | .tool callId name result isError => .tool callId name result isError

/-- Documents can hold the values in a message. -/
def WellFormed : Message → Prop
  | .user .. => True
  | .assistant _ calls => ∀ c ∈ calls, c.arguments.WellFormed
  | .tool _ _ result _ => result.WellFormed

end Message

/-! ## Tools -/

namespace Tool

/-- The tool as a part of a document. -/
def document (t : Tool) : Json :=
  .object [
    ("name", .string t.name),
    ("description", .string t.description),
    ("parameters", .string t.parameters.value.compact)]

/-- What the part says. -/
def declaration (t : Tool) : ToolDeclaration where
  name := t.name
  description := t.description
  parameters := .string t.parameters.value.compact

end Tool

/-! ## Checks -/

/-- An expected call as a part of a document. -/
def ExpectedCall.document (c : ExpectedCall) : Json :=
  .object [("tool_name", .string c.tool), ("args", c.arguments)]

namespace CheckKind

/-- The options of a check, without its model. -/
def options : CheckKind → Members
  | .exactMatch value caseInsensitive =>
    [("value", .string value), ("case_insensitive", .bool caseInsensitive)]
  | .toolCalls calls => [("tool_calls", Json.list ExpectedCall.document calls)]
  | .structuredOutput result => [("result", .string result.compact)]
  | .profanity _ forbidden => given "forbidden" (Json.list .string) (filled forbidden)
  | .aligned _ instructions => [("instructions", .string instructions)]
  | .custom _ _ options => options

/-- Documents can hold the values in a check. -/
def WellFormed : CheckKind → Prop
  | .toolCalls calls => ∀ c ∈ calls, c.arguments.WellFormed
  | .custom _ _ options => (Json.object options).WellFormed
  | _ => True

/-- The values that are written as texts. -/
def printed : CheckKind → List Json
  | .structuredOutput result => [result]
  | _ => []

end CheckKind

/-- The check as a part of a document. -/
def Check.document (c : Check) : Json :=
  .object (c.kind.options ++ given "model" .string c.kind.model ++ given "name" .string c.name ++
    [("id", .string c.id)])

/-- The checks as a part of a document, if there are any. -/
def checksDocument (cs : List Check) : Option Json := (filled cs).map (Json.list Check.document)

/-! ## Evaluations -/

namespace EvaluationCase

/-- The case as a part of a document. -/
def document (c : EvaluationCase) : Json :=
  .object (given "name" .string c.name ++
    ("messages", Json.list Message.document c.messages) ::
      given "checks" (Json.list Check.document) (filled c.checks))

/-- What the part says. -/
def draft (c : EvaluationCase) : CaseDraft where
  name := c.name
  messages := c.messages.map Message.draft
  checks := checksDocument c.checks

end EvaluationCase

namespace EvaluationSuite

/-- The evaluation as a part of a document. -/
def document (s : EvaluationSuite) : Json :=
  .object (given "checks" (Json.list Check.document) (filled s.checks) ++
    [("evaluations", Json.list EvaluationCase.document s.cases)])

/-- What the part says. -/
def draft (s : EvaluationSuite) : EvaluationDraft where
  checks := checksDocument s.checks
  cases := s.cases.map EvaluationCase.draft

/-- The checks of the evaluation and of its cases. -/
def allChecks (s : EvaluationSuite) : List Check :=
  s.checks ++ s.cases.flatMap EvaluationCase.checks

/-- Documents can hold the values in an evaluation. -/
structure WellFormed (s : EvaluationSuite) : Prop where
  messages : ∀ c ∈ s.cases, ∀ m ∈ c.messages, m.WellFormed
  checks : ∀ k ∈ s.allChecks, k.kind.WellFormed

end EvaluationSuite

/-! ## Prompts -/

namespace Prompt

/-- The prompt as a document. -/
def document (p : Prompt) : Json :=
  .object (("name", .string p.name) :: (given "model" .string p.model ++
    ("version", .int p.version) :: ("system_prompt", .string p.system) ::
    ("temperature", .number (.float p.temperature)) ::
    (given "few_shot_messages" (Json.list Message.document) (filled p.fewShot) ++
    (given "final_messages" (Json.list Message.document) (filled p.final) ++
    (given "tools" (Json.list Tool.document) (filled p.tools) ++
    (given "schema" (fun s => .string s.value.compact) p.schema ++
    given "evaluation" EvaluationSuite.document p.evaluation))))))

/-- What the document says. -/
def draft (p : Prompt) : PromptDraft where
  name := p.name
  model := p.model
  version := p.version
  system := p.system
  temperature := p.temperature
  fewShot := (filled p.fewShot).map (List.map Message.draft)
  final := (filled p.final).map (List.map Message.draft)
  tools := (filled p.tools).map (List.map Tool.declaration)
  schema := p.schema.map fun s => .string s.value.compact
  evaluation := p.evaluation.map EvaluationSuite.draft

/-- Documents can hold the values in a prompt. -/
structure WellFormed (p : Prompt) : Prop where
  fewShot : ∀ m ∈ p.fewShot, m.WellFormed
  final : ∀ m ∈ p.final, m.WellFormed
  evaluation : ∀ s, p.evaluation = some s → s.WellFormed

/-- The values that are written as texts: the schema, the parameters of the tools, and the values
that checks expect. -/
def printed (p : Prompt) : List Json :=
  p.schema.toList.map Schema.value ++ p.tools.map (fun t => t.parameters.value) ++
    p.evaluation.toList.flatMap fun s => s.allChecks.flatMap fun k => k.kind.printed

end Prompt

end Promptwright
