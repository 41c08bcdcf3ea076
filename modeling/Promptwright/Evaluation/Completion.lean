import Promptwright.Json.Printer
import Promptwright.Prompt.Message

/-! # Completions

A completion is what a model answered: a text, perhaps with calls of tools, or a value. -/

namespace Promptwright

/-- The answer of a model. -/
inductive Completion
  | text (text : String) (calls : List ToolCall)
  | structured (value : Json)

namespace Completion

/-- Adds a call.  A structured answer has none. -/
def addCall : Completion → ToolCall → Completion
  | .text s calls, call => .text s (calls ++ [call])
  | .structured value, _ => .structured value

/-- The answer as a text; a value is written as JSON. -/
def asText : Completion → String
  | .text s _ => s
  | .structured value => value.compact

/-- The answer as a value. -/
def toJson : Completion → Json
  | .text s _ => .string s
  | .structured value => value

end Completion

end Promptwright
