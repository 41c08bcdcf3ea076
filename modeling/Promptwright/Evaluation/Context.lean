import Promptwright.Evaluation.Completion
import Promptwright.Prompt.Check
import Std.Data.ExtTreeMap

/-! # What checks may consult

Some checks are graded by a model, through a `Judge`, and custom checks bring their own code.
A `Context` holds both.  Custom code sees all of the context, and so also what other code is
registered. -/

namespace Promptwright

/-- Why a check has no result. -/
inductive CheckError
  /-- The judge cannot reach the model. -/
  | unknownModel (model : String)
  /-- No code is registered for the id of a custom check. -/
  | unknownCheck (id : String)
  /-- The judge fails. -/
  | judge (reason : String)
deriving DecidableEq, Repr

/-- The error in words. -/
def CheckError.message : CheckError → String
  | .unknownModel model => "unknown model '" ++ model ++ "'"
  | .unknownCheck id => "no check registered for id '" ++ id ++ "'"
  | .judge reason => "judge failed: " ++ reason

/-- The result of a check, with details. -/
structure CheckResult where
  name : String
  success : Bool
  data : Json

/-! ## Judges -/

/-- Grades answers with a model. -/
structure Judge where
  /-- Whether an output holds something offensive or one of some words, as a model sees it. -/
  hasProfanity : (model : String) → (forbidden : List String) → (output : String) →
    Except CheckError Bool
  /-- Whether an output follows instructions, as a model sees it. -/
  isAligned : (model : String) → (instructions : String) → (output : String) →
    Except CheckError Bool

/-- What a model is to grade. -/
inductive GradedTask
  /-- Whether an answer holds something offensive or one of some words. -/
  | profanity (forbidden : List String)
  /-- Whether an answer follows instructions. -/
  | aligned (instructions : String)
deriving DecidableEq

/-- A question to a judge. -/
structure Question where
  task : GradedTask
  model : String
  output : String
deriving DecidableEq

/-- The answer of a judge. -/
def Judge.answer (judge : Judge) : Question → Except CheckError Bool
  | ⟨.profanity forbidden, model, output⟩ => judge.hasProfanity model forbidden output
  | ⟨.aligned instructions, model, output⟩ => judge.isAligned model instructions output

/-! ## Contexts -/

/-- Models that grade: the one used by default, and the judge. -/
structure Grading where
  defaultModel : Option String := none
  judge : Option Judge := none

/-- Everything that checks may consult: the models that grade, and code for custom checks under its
ids. -/
structure Context (Code : Type) where
  grading : Grading := {}
  custom : Std.ExtTreeMap String Code := {}

/-- Code for custom checks. -/
class CustomCode (Code : Type) where
  /-- The id of the checks that the code is for. -/
  id : Code → String
  /-- What the code makes of a check and an answer. -/
  run : Code → Check → Completion → Context Code → Except CheckError CheckResult

/-- There need not be any code. -/
instance : CustomCode Empty where
  id := nofun
  run := nofun

namespace Context

/-- A context without a model, a judge and any code. -/
abbrev bare : Context Empty := {}

variable {Code : Type}

/-- Registers code under its id, in place of what was registered before. -/
def register [CustomCode Code] (c : Context Code) (code : Code) : Context Code :=
  { c with custom := c.custom.insert (CustomCode.id code) code }

/-- The code that is registered under an id. -/
def custom? (c : Context Code) (id : String) : Option Code := c.custom[id]?

end Context

end Promptwright
