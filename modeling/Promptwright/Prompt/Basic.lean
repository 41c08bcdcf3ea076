import Promptwright.Binary64
import Promptwright.Prompt.Check

/-! # Prompts

A prompt is a system text with everything that goes with it: messages before and after the
conversation, tools, the shape of the answer, and an evaluation suite.  All references to other
files are resolved and all defaults applied. -/

namespace Promptwright

/-- A JSON Schema, kept as the value it is written as. -/
structure Schema where
  value : Json

namespace Schema

/-- The value of a keyword. -/
def get? (s : Schema) (keyword : String) : Option Json := s.value.get? keyword

/-- The type that the schema asks for, if it is a single one. -/
def kind? (s : Schema) : Option String := (s.get? "type").bind Json.string?

/-- Whether the value is an object with a `type`, which is what documents require. -/
def isTyped (s : Schema) : Bool := (s.get? "type").isSome

end Schema

/-- A tool that the model may call. -/
structure Tool where
  name : String
  description : String
  parameters : Schema

/-- A prompt. -/
structure Prompt where
  name : String
  version : Nat := 1
  model : Option String := none
  system : String
  temperature : Binary64 := .zero
  fewShot : List Message := []
  final : List Message := []
  tools : List Tool := []
  schema : Option Schema := none
  evaluation : Option EvaluationSuite := none

/-- A prompt and the file that it was read from. -/
structure PromptFile where
  path : String
  prompt : Prompt

end Promptwright
