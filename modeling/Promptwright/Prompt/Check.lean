import Promptwright.Prompt.Message

/-! # Checks

An evaluation suite is a list of cases, each a conversation to run against a prompt, together
with checks on what the model answers.  The checks of the suite apply to every case, those of a
case to that case alone.

Five kinds of checks are built in.  All other ids belong to custom checks, whose options are
kept as they are. -/

namespace Promptwright

/-- A call of a tool that an answer should make. -/
structure ExpectedCall where
  tool : String
  arguments : Json

/-- What a check looks for. -/
inductive CheckKind
  /-- The answer is this very text. -/
  | exactMatch (value : String) (caseInsensitive : Bool)
  /-- The answer makes these calls, in order. -/
  | toolCalls (calls : List ExpectedCall)
  /-- The answer is this value. -/
  | structuredOutput (result : Json)
  /-- A model finds nothing offensive in the answer. -/
  | profanity (model : Option String) (forbidden : List String)
  /-- A model finds that the answer follows instructions. -/
  | aligned (model : Option String) (instructions : String)
  | custom (id : String) (model : Option String) (options : Json.Members)

namespace CheckKind

/-- The ids of the built-in kinds. -/
def builtinIds : List String :=
  ["exact_match", "tool_call", "structured_output", "profanity", "aligned"]

/-- The id of a kind, as documents spell it. -/
def id : CheckKind → String
  | .exactMatch .. => "exact_match"
  | .toolCalls _ => "tool_call"
  | .structuredOutput _ => "structured_output"
  | .profanity .. => "profanity"
  | .aligned .. => "aligned"
  | .custom id .. => id

/-- The model that a check asks for. -/
def model : CheckKind → Option String
  | .profanity model _ => model
  | .aligned model _ => model
  | .custom _ model _ => model
  | _ => none

end CheckKind

/-- A check, with a name for its results. -/
structure Check where
  name : Option String
  kind : CheckKind

namespace Check

/-- The id of the kind. -/
def id (c : Check) : String := c.kind.id

/-- The name, or else the id. -/
def displayName (c : Check) : String := c.name.getD c.id

end Check

/-- A conversation to run against a prompt. -/
structure EvaluationCase where
  name : Option String
  messages : List Message
  checks : List Check

/-- Checks for every case, and the cases. -/
structure EvaluationSuite where
  checks : List Check
  cases : List EvaluationCase

namespace EvaluationSuite

/-- The checks that apply to a case, those of the suite first. -/
def checksFor (s : EvaluationSuite) (c : EvaluationCase) : List Check := s.checks ++ c.checks

end EvaluationSuite

end Promptwright
