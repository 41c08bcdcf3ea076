import Promptwright.Prompt.Draft

/-! # The options of built-in checks

Each built-in kind of check has a record of options.  They are read from a JSON value, after the
id and the name of the check have been taken out. -/

namespace Promptwright.CheckOptions

/-- The options of an exact match. -/
def exactMatch : Record (String × Bool) where
  title := "struct ExactMatchDoc"
  fields := [
    .needed "value" Node.string fun s x => (x, s.2),
    .spare "case_insensitive" Node.bool fun s x => (s.1, x)]
  blank := ("", false)

/-- An expected call. -/
def expectedCall : Record ExpectedCall where
  title := "struct ExpectedToolCallDoc"
  fields := [
    .needed "tool_name" Node.string fun s x => { s with tool := x },
    .spare "args" Node.json fun s x => { s with arguments := x }]
  blank := ⟨"", .null⟩

/-- The options of a check for calls. -/
def toolCalls : Record (List ExpectedCall) where
  title := "struct ToolCallCheckDoc"
  fields := [
    .neededIn "tool_calls" (fun src => Node.list (expectedCall.read src)) fun _ x => x]
  blank := []

/-- The options of a check for a value. -/
def structuredOutput : Record Json where
  title := "struct StructuredOutputDoc"
  fields := [.needed "result" Node.json fun _ x => x]
  blank := .null

/-- The options of a check for offensive words. -/
def profanity : Record (Option String × Option (List String)) where
  title := "struct ProfanityDoc"
  fields := [
    .optional "model" Node.string fun s x => (x, s.2),
    .optional "forbidden" (Node.list Node.string) fun s x => (s.1, x)]
  blank := (none, none)

/-- The options of a check for instructions. -/
def aligned : Record (Option String × String) where
  title := "struct AlignedDoc"
  fields := [
    .optional "model" Node.string fun s x => (x, s.2),
    .needed "instructions" Node.string fun s x => (s.1, x)]
  blank := (none, "")

end Promptwright.CheckOptions
