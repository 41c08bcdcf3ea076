import Promptwright.Document.Record
import Promptwright.Prompt.Check

/-! # Prompt documents

A prompt document is a record with the fields of a prompt.  The drafts here hold what a document
says, after its shape has been checked and before its meaning has: a missing list and an empty
list are told apart, schemas and checks are arbitrary values, and references are unresolved.
Keys that a record does not have are refused everywhere. -/

namespace Promptwright

/-! ## Fields -/

namespace Field

variable {α σ : Type}

/-- A field that must be given. -/
def needed (name : String) (read : Node → Reading α) (put : σ → α → σ) : Field σ :=
  ⟨name, true, fun _ n s => put s <$> read n⟩

/-- A field that may be missing.  A value that is given has to fit. -/
def spare (name : String) (read : Node → Reading α) (put : σ → α → σ) : Field σ :=
  ⟨name, false, fun _ n s => put s <$> read n⟩

/-- A field that may be missing or null. -/
def optional (name : String) (read : Node → Reading α) (put : σ → Option α → σ) : Field σ :=
  ⟨name, false, fun _ n s => put s <$> n.optional read⟩

/-- A field that must be given, read by its source. -/
def neededIn (name : String) (read : Source → Node → Reading α) (put : σ → α → σ) : Field σ :=
  ⟨name, true, fun src n s => put s <$> read src n⟩

/-- A field that may be missing or null, read by its source. -/
def optionalIn (name : String) (read : Source → Node → Reading α) (put : σ → Option α → σ) :
    Field σ :=
  ⟨name, false, fun src n s => put s <$> n.optional (read src)⟩

end Field

namespace Node

/-- A text value. -/
def string : Node → Reading String := text "a string"

end Node

/-! ## Messages -/

/-- A call of a tool in a document. -/
structure CallDraft where
  id : String := ""
  name : String := ""
  arguments : Json := .null
  kind : Option String := none

/-- The function of a call. -/
def FunctionDraft.record : Record (String × Json) where
  title := "struct FunctionDoc"
  fields := [
    .needed "name" Node.string fun s x => (x, s.2),
    .needed "arguments" Node.json fun s x => (s.1, x)]
  blank := ("", .null)

/-- A call of a tool. -/
def CallDraft.record : Record CallDraft where
  title := "struct ToolCallDoc"
  fields := [
    .needed "id" Node.string fun s x => { s with id := x },
    .neededIn "function" FunctionDraft.record.read fun s x =>
      { s with name := x.1, arguments := x.2 },
    .optional "type" Node.string fun s x => { s with kind := x }]
  blank := {}

/-- A message in a document. -/
inductive MessageDraft
  | user (content : String) (name : Option String)
  | assistant (content : Option String) (calls : Option (List CallDraft))
  | tool (callId name : String) (result : Json) (isError : Bool)

namespace MessageDraft

/-- A message of a user. -/
def userRecord : Record (String × Option String) where
  title := "struct UserDoc"
  fields := [
    .needed "content" Node.string fun s x => (x, s.2),
    .optional "name" Node.string fun s x => (s.1, x)]
  blank := ("", none)

/-- A message of the assistant. -/
def assistantRecord : Record (Option String × Option (List CallDraft)) where
  title := "struct AssistantDoc"
  fields := [
    .optional "content" Node.string fun s x => (x, s.2),
    .optionalIn "tool_calls" (fun src => Node.list (CallDraft.record.read src)) fun s x =>
      (s.1, x)]
  blank := (none, none)

/-- The answer of a tool. -/
structure ToolDraft where
  callId : String := ""
  name : String := ""
  result : Json := .null
  isError : Bool := false

/-- The answer of a tool. -/
def toolRecord : Record ToolDraft where
  title := "struct ToolResultDoc"
  fields := [
    .needed "tool_call_id" Node.string fun s x => { s with callId := x },
    .needed "tool_name" Node.string fun s x => { s with name := x },
    .spare "result" Node.json fun s x => { s with result := x },
    .spare "is_error" Node.bool fun s x => { s with isError := x }]
  blank := {}

/-- Who speaks. -/
inductive Role
  | user
  | assistant
  | tool
deriving DecidableEq, Repr

/-- Reads a role. -/
def readRole (n : Node) : Reading Role := do
  let name ← n.text "variant identifier"
  if name = "user" then return .user
  else if name = "assistant" then return .assistant
  else if name = "tool" then return .tool
  else .error (.unknownVariant name ["user", "assistant", "tool"])

/-- What a message is called. -/
def title : String := "internally tagged enum MessageDoc"

/-- Whether a key is the one for the role. -/
def isRoleKey : Node → Bool
  | .atom (.string s) => s == "role"
  | _ => false

/-- Looks for the role among the entries of a message and sets all other entries aside. -/
def splitRole : List (Node × Node) → Option Role → Reading (Option Role × List (Node × Node))
  | [], role => .ok (role, [])
  | (k, v) :: es, role => do
    let k ← k.setAside "a type tag \x60role\x60 or any other value"
    if isRoleKey k then
      if role.isSome then .error (.duplicateField "role")
      else do
        let r ← readRole v
        splitRole es (some r)
    else do
      let v ← v.setAside Node.anyPart
      let (role, rest) ← splitRole es role
      return (role, (k, v) :: rest)

/-- Reads what a message holds beside its role. -/
def readRest (src : Source) (rest : Node) : Role → Reading MessageDraft
  | .user => do
    let (content, name) ← userRecord.read src rest
    return .user content name
  | .assistant => do
    let (content, calls) ← assistantRecord.read src rest
    return .assistant content calls
  | .tool => do
    let d ← toolRecord.read src rest
    return .tool d.callId d.name d.result d.isError

/-- Reads a message: its role may stand anywhere among its entries, and says what the others
have to be. -/
def read (src : Source) : Node → Reading MessageDraft
  | .mapping false entries => do
    match ← splitRole entries none with
    | (none, _) => .error (.missingField "role")
    | (some role, rest) => readRest src.setAside (.mapping false rest) role
  | .sequence false [] => .error (.missingField "role")
  | .sequence false (r :: rest) => do
    let role ← readRole r
    let rest ← Node.setItemsAside rest
    readRest src.setAside (.sequence false rest) role
  | .mapping true _ => .error (.invalidType .tagged title)
  | .sequence true _ => .error (.invalidType .tagged title)
  | .absent => .error (.invalidType (.atom .null) title)
  | .scalar s =>
    if Scalar.isLocalTag s.tag then .error (.invalidType .tagged title)
    else (Node.scalar s).refuse title
  | n => n.refuse title

end MessageDraft

/-! ## Tools and evaluations -/

/-- A tool in a document. -/
structure ToolDeclaration where
  name : String := ""
  description : String := ""
  parameters : Json := .null

/-- A tool. -/
def ToolDeclaration.record : Record ToolDeclaration where
  title := "struct ToolDoc"
  fields := [
    .needed "name" Node.string fun s x => { s with name := x },
    .needed "description" Node.string fun s x => { s with description := x },
    .needed "parameters" Node.json fun s x => { s with parameters := x }]
  blank := {}

/-- A case of an evaluation in a document. -/
structure CaseDraft where
  name : Option String := none
  messages : List MessageDraft := []
  checks : Option Json := none

/-- A case. -/
def CaseDraft.record : Record CaseDraft where
  title := "struct EvaluationCaseDoc"
  fields := [
    .optional "name" Node.string fun s x => { s with name := x },
    .neededIn "messages" (fun src => Node.list (MessageDraft.read src)) fun s x =>
      { s with messages := x },
    .optional "checks" Node.json fun s x => { s with checks := x }]
  blank := {}

/-- An evaluation in a document. -/
structure EvaluationDraft where
  checks : Option Json := none
  cases : List CaseDraft := []

/-- An evaluation. -/
def EvaluationDraft.record : Record EvaluationDraft where
  title := "struct EvaluationDoc"
  fields := [
    .optional "checks" Node.json fun s x => { s with checks := x },
    .neededIn "evaluations" (fun src => Node.list (CaseDraft.record.read src)) fun s x =>
      { s with cases := x }]
  blank := {}

/-! ## Prompts -/

/-- A prompt in a document. -/
structure PromptDraft where
  name : String := ""
  model : Option String := none
  version : Int := 1
  system : String := ""
  temperature : Binary64 := .zero
  fewShot : Option (List MessageDraft) := none
  final : Option (List MessageDraft) := none
  tools : Option (List ToolDeclaration) := none
  schema : Option Json := none
  evaluation : Option EvaluationDraft := none

/-- A prompt. -/
def PromptDraft.record : Record PromptDraft where
  title := "struct PromptDoc"
  fields := [
    .needed "name" Node.string fun s x => { s with name := x },
    .optional "model" Node.string fun s x => { s with model := x },
    .spare "version" Node.signed fun s x => { s with version := x },
    .needed "system_prompt" Node.string fun s x => { s with system := x },
    .spare "temperature" Node.float fun s x => { s with temperature := x },
    .optionalIn "few_shot_messages" (fun src => Node.list (MessageDraft.read src)) fun s x =>
      { s with fewShot := x },
    .optionalIn "final_messages" (fun src => Node.list (MessageDraft.read src)) fun s x =>
      { s with final := x },
    .optionalIn "tools" (fun src => Node.list (ToolDeclaration.record.read src)) fun s x =>
      { s with tools := x },
    .optional "schema" Node.json fun s x => { s with schema := x },
    .optionalIn "evaluation" EvaluationDraft.record.read fun s x => { s with evaluation := x }]
  blank := {}

end Promptwright
