import Promptwright.Document.JsonValue
import Promptwright.Evaluation.Context
import Promptwright.Json.Same
import Promptwright.Text.Lowercase

/-! # Running checks

`Check.run` runs a check on an answer.  Matches are decided here; the rest is left to a judge or
to custom code.  To ask the judge may have effects, so `Check.runIn` says what is asked besides what
becomes of a check.  `EvaluationSuite.runCase` runs all checks of a case and passes over those whose
code is not registered. -/

namespace Promptwright

/-- The model to use: that of the check, or else the default one.  Empty names do not count. -/
def resolveModel (ofCheck default : Option String) : Option String :=
  (ofCheck.toList ++ default.toList).find? fun model => !model.isEmpty

/-! ## Matches -/

/-- Whether two texts are equal, perhaps up to case. -/
def textsMatch (caseInsensitive : Bool) (actual expected : String) : Bool :=
  if caseInsensitive then
    Text.lowercase actual.toList == Text.lowercase expected.toList
  else actual == expected

namespace ToolCall

/-- The arguments as a value.  A text that holds JSON stands for the value of that JSON. -/
def argumentValue (c : ToolCall) : Json :=
  match c.arguments with
  | .string text => (Json.ofText? text).getD (.string text)
  | j => j

/-- The call as results show it. -/
def report (c : ToolCall) : Json :=
  .object [("id", .string c.id), ("name", .string c.name), ("arguments", c.arguments)]

end ToolCall

namespace ExpectedCall

/-- The expected call as results show it. -/
def report (e : ExpectedCall) : Json :=
  .object [("tool_name", .string e.tool), ("args", e.arguments)]

/-- Whether a call is the expected one. -/
def isMetBy (e : ExpectedCall) (c : ToolCall) : Bool :=
  e.tool == c.name && e.arguments.same c.argumentValue

/-- Whether calls are the expected ones, in order. -/
def allMetBy : List ExpectedCall → List ToolCall → Bool
  | [], [] => true
  | e :: es, c :: cs => e.isMetBy c && allMetBy es cs
  | _, _ => false

end ExpectedCall

/-- The check for calls.  A structured answer makes none, and fails even if none is expected. -/
def runToolCalls (name : String) (expected : List ExpectedCall) : Completion → CheckResult
  | .text _ calls =>
    { name
      success := ExpectedCall.allMetBy expected calls
      data := .object [
        ("check", .array (expected.map ExpectedCall.report)),
        ("tool_calls", .array (calls.map ToolCall.report))] }
  | .structured _ =>
    { name
      success := false
      data := .object [
        ("check", .array (expected.map ExpectedCall.report)), ("tool_calls", .array [])] }

/-! ## Graded checks -/

/-- The result of a check whose model is missing or out of reach. -/
def modelUnavailable (name : String) (model : Option String) : CheckResult :=
  ⟨name, false, .object [("model", .stringOrNull model)]⟩

namespace GradedTask

/-- Whether an answer is favourable. -/
def passes : GradedTask → Bool → Bool
  | .profanity _, found => !found
  | .aligned _, follows => follows

/-- What results show of a task, beside the model. -/
def detail : GradedTask → String × Json
  | .profanity forbidden => ("forbidden", Json.strings forbidden)
  | .aligned instructions => ("instructions", .string instructions)

/-- What follows from the answer of the judge. -/
def conclude (task : GradedTask) (name model : String) :
    Except CheckError Bool → Except CheckError CheckResult
  | .ok answer =>
    .ok ⟨name, task.passes answer, .object [task.detail, ("model", .string model)]⟩
  | .error (.unknownModel m) => .ok (modelUnavailable name (some m))
  | .error e => .error e

end GradedTask

/-- Ways to ask a judge, which may have effects. -/
abbrev Asking (m : Type → Type) := Judge → Question → m (Except CheckError Bool)

/-- Just asks. -/
def Asking.plain : Asking Id := fun judge q => judge.answer q

/-- Runs a check that a model grades. -/
def runGraded {m : Type → Type} [Monad m] (ask : Asking m) (g : Grading) (task : GradedTask)
    (name : String) (ofCheck : Option String) (output : String) :
    m (Except CheckError CheckResult) :=
  match resolveModel ofCheck g.defaultModel with
  | none => return .ok (modelUnavailable name none)
  | some model =>
    match g.judge with
    | none => return .error (.judge "no judge configured for model-graded checks")
    | some judge => return task.conclude name model (← ask judge ⟨task, model, output⟩)

/-! ## Checks and cases -/

variable {Code : Type} [CustomCode Code]

/-- Runs a check on an answer, with a way to ask the judge. -/
def Check.runIn {m : Type → Type} [Monad m] (ask : Asking m) (check : Check)
    (completion : Completion) (ctx : Context Code) : m (Except CheckError CheckResult) :=
  let name := check.displayName
  match check.kind with
  | .exactMatch value caseInsensitive =>
    return .ok ⟨name, textsMatch caseInsensitive completion.asText value,
      .object [("case_insensitive", .bool caseInsensitive)]⟩
  | .toolCalls calls => return .ok (runToolCalls name calls completion)
  | .structuredOutput result =>
    return .ok ⟨name, completion.toJson.same result,
      .object [("check", result), ("result", completion.toJson)]⟩
  | .profanity model forbidden =>
    runGraded ask ctx.grading (.profanity forbidden) name model completion.asText
  | .aligned model instructions =>
    runGraded ask ctx.grading (.aligned instructions) name model completion.asText
  | .custom id _ _ =>
    match ctx.custom? id with
    | some code => return CustomCode.run code check completion ctx
    | none => return .error (.unknownCheck id)

/-- Runs a check on an answer. -/
def Check.run (check : Check) (completion : Completion) (ctx : Context Code) :
    Except CheckError CheckResult :=
  check.runIn Asking.plain completion ctx

/-- Runs checks one after the other.  Unknown ones leave no result; any other error ends the
run. -/
def runChecks (completion : Completion) (ctx : Context Code) :
    List Check → Except CheckError (List CheckResult)
  | [] => .ok []
  | check :: checks =>
    match check.run completion ctx with
    | .ok result => do return result :: (← runChecks completion ctx checks)
    | .error (.unknownCheck _) => runChecks completion ctx checks
    | .error e => .error e

/-- Runs all checks that apply to a case. -/
def EvaluationSuite.runCase (s : EvaluationSuite) (c : EvaluationCase) (completion : Completion)
    (ctx : Context Code) : Except CheckError (List CheckResult) :=
  runChecks completion ctx (s.checksFor c)

end Promptwright
