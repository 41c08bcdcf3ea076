import Promptwright.Document.JsonValue
import Promptwright.Prompt.Basic
import Promptwright.Prompt.CheckOptions
import Promptwright.Prompt.LoadError
import Promptwright.Text.Blank

/-! # From documents to prompts

`PromptDraft.resolve` turns a draft into a prompt.  It refuses drafts that make no sense, fills
in defaults, brings checks into one form, and replaces references to schema files by what is in
these files.  Files are looked up in a tree, next to the document that refers to them. -/

namespace Promptwright

/-- A document's place: its path and the files around it. -/
structure Origin where
  file : String
  files : FileTree

namespace Origin

/-- The error of a document with a flaw. -/
def flawed {α : Type} (o : Origin) (flaw : Flaw) : Except LoadError α :=
  .error (.invalid o.file flaw)

/-- The directory that references start from. -/
def directory (o : Origin) : String :=
  match Path.parent? o.file with
  | none => "."
  | some dir => if dir = "" then "." else dir

end Origin

/-! ## References -/

namespace Json

/-- The file that a value refers to: it is an object with the only key `$ref` or `path`, which
holds a text. -/
def reference? : Json → Option String
  | .object [(key, .string file)] => if key = "$ref" ∨ key = "path" then some file else none
  | _ => none

/-- The value of a JSON text, whatever white space is around it. -/
def ofPaddedText? (text : String) : Option Json :=
  ofText? (String.ofList (Text.trim text.toList))

end Json

namespace Origin

/-- The value in a JSON file next to the document. -/
def readReference (o : Origin) (file : String) : Except LoadError Json :=
  let refuse e := .error (.reference o.file file e)
  if !(['.', 'j', 's', 'o', 'n'].isSuffixOf file.toList) then refuse .notJsonName
  else
    match o.files.readText (Path.join o.directory file) with
    | .error e => refuse (.unreadable e)
    | .ok text =>
      match Json.ofPaddedText? text with
      | none => refuse .notJson
      | some j => .ok j

/-- The value that a document means: the content of a file, a text that holds JSON, or the very
value that is given. -/
def resolveJson (o : Origin) (j : Json) : Except LoadError Json :=
  match j.reference? with
  | some file => o.readReference file
  | none =>
    match j with
    | .string text =>
      match Json.ofPaddedText? text with
      | some j => .ok j
      | none => .error (.document .json o.file .unreadable)
    | j => .ok j

/-- The schema that a document means. -/
def resolveSchema (o : Origin) (place : SchemaPlace) (j : Json) : Except LoadError Schema := do
  let s : Schema := ⟨← o.resolveJson j⟩
  if s.isTyped then return s else o.flawed (.notSchema place)

/-! ## Messages and tools -/

/-- A call of a tool.  Only functions can be called. -/
def resolveCall (o : Origin) (d : CallDraft) : Except LoadError ToolCall :=
  match d.kind with
  | some kind =>
    if kind = "function" then .ok ⟨d.id, d.name, d.arguments⟩ else o.flawed (.badCallType kind)
  | none => .ok ⟨d.id, d.name, d.arguments⟩

/-- A list that may be missing, but must not be empty when it is given. -/
def resolveList {α β : Type} (o : Origin) (ifEmpty : Flaw) (resolve : α → Except LoadError β) :
    Option (List α) → Except LoadError (List β)
  | none => .ok []
  | some [] => o.flawed ifEmpty
  | some (a :: as) => (a :: as).mapM resolve

/-- A message. -/
def resolveMessage (o : Origin) : MessageDraft → Except LoadError Message
  | .user content name => .ok (.user content name)
  | .assistant content calls => do
    return .assistant (content.getD "") (← o.resolveList .noCalls o.resolveCall calls)
  | .tool callId name result isError => .ok (.tool callId name result isError)

/-- A tool. -/
def resolveTool (o : Origin) (d : ToolDeclaration) : Except LoadError Tool := do
  return ⟨d.name, d.description, ← o.resolveSchema (.tool d.name) d.parameters⟩

/-! ## Checks -/

/-- The options of a built-in check. -/
def checkOptions {α : Type} (o : Origin) (id : String) (r : Record α) (options : Json.Members) :
    Except LoadError α :=
  match r.read .value (Node.ofJson (.object options)) with
  | .ok a => .ok a
  | .error m => o.flawed (.misfitCheck id m)

/-- What a check with an id and options looks for. -/
def resolveKind (o : Origin) (id : String) (options : Json.Members) :
    Except LoadError CheckKind :=
  if id = "exact_match" then do
    let (value, caseInsensitive) ← o.checkOptions id CheckOptions.exactMatch options
    return .exactMatch value caseInsensitive
  else if id = "tool_call" then do
    return .toolCalls (← o.checkOptions id CheckOptions.toolCalls options)
  else if id = "structured_output" then do
    let result ← o.checkOptions id CheckOptions.structuredOutput options
    return .structuredOutput (← o.resolveJson result)
  else if id = "profanity" then do
    let (model, forbidden) ← o.checkOptions id CheckOptions.profanity options
    match forbidden with
    | some [] => o.flawed .noForbidden
    | forbidden => return .profanity model (forbidden.getD [])
  else if id = "aligned" then do
    let (model, instructions) ← o.checkOptions id CheckOptions.aligned options
    return .aligned model instructions
  else
    match Json.Members.lookup options "model" with
    | none => .ok (.custom id none (options.remove "model"))
    | some .null => .ok (.custom id none (options.remove "model"))
    | some (.string model) => .ok (.custom id (some model) (options.remove "model"))
    | some _ => o.flawed (.badCheckModel id)

/-- A check, given as an object with its id, its name and its options. -/
def resolveCheck (o : Origin) : Json → Except LoadError Check
  | .object members =>
    match Json.Members.lookup members "id" with
    | some (.string id) =>
      let options := Json.Members.remove members "id"
      let rest := Json.Members.remove options "name"
      match Json.Members.lookup options "name" with
      | none => do return ⟨none, ← o.resolveKind id rest⟩
      | some .null => do return ⟨none, ← o.resolveKind id rest⟩
      | some (.string name) => do return ⟨some name, ← o.resolveKind id rest⟩
      | some _ => o.flawed (.badCheckName id)
    | _ => o.flawed .noCheckId
  | _ => o.flawed .badCheck

/-- A check, given as an id and its options. -/
def resolveEntry (o : Origin) : String × Json → Except LoadError Check
  | (id, .object options) => o.resolveCheck (.object (Json.Members.insert options "id" (.string id)))
  | (id, .null) => o.resolveCheck (.object [("id", .string id)])
  | (id, _) => o.flawed (.badCheckOptions id)

/-- Checks, given as a list or as an object that leads from ids to options. -/
def resolveChecks (o : Origin) : Option Json → Except LoadError (List Check)
  | none => .ok []
  | some .null => .ok []
  | some (.array items) => items.mapM o.resolveCheck
  | some (.object members) => members.mapM o.resolveEntry
  | some _ => o.flawed .badChecks

/-- A case of an evaluation. -/
def resolveCase (o : Origin) (d : CaseDraft) : Except LoadError EvaluationCase :=
  if d.messages.isEmpty then o.flawed .noCaseMessages
  else do
    let messages ← d.messages.mapM o.resolveMessage
    return ⟨d.name, messages, ← o.resolveChecks d.checks⟩

/-- An evaluation. -/
def resolveEvaluation (o : Origin) (d : EvaluationDraft) : Except LoadError EvaluationSuite :=
  if d.cases.isEmpty then o.flawed .noCases
  else do
    let checks ← o.resolveChecks d.checks
    return ⟨checks, ← d.cases.mapM o.resolveCase⟩

/-! ## Prompts -/

/-- The greatest version. -/
def maxVersion : Int := 4294967295

/-- Refuses a draft whose single values make no sense. -/
def checkValues (o : Origin) (d : PromptDraft) : Except LoadError Unit :=
  if (Text.trim d.name.toList).isEmpty then o.flawed .blankName
  else if d.version < 1 ∨ maxVersion < d.version then o.flawed (.badVersion d.version)
  else if !(Binary64.zero.le d.temperature && d.temperature.le (.ofNat 2)) then
    o.flawed (.badTemperature d.temperature)
  else
    match d.model with
    | some model =>
      if model.toList.contains '@' then .ok () else o.flawed (.badModel model)
    | none => .ok ()

end Origin

/-- The prompt that a draft stands for. -/
def PromptDraft.resolve (d : PromptDraft) (o : Origin) : Except LoadError Prompt := do
  o.checkValues d
  let fewShot ← o.resolveList (.noMessages "few_shot_messages") o.resolveMessage d.fewShot
  let final ← o.resolveList (.noMessages "final_messages") o.resolveMessage d.final
  let tools ← o.resolveList .noTools o.resolveTool d.tools
  let schema ← d.schema.mapM (o.resolveSchema .output)
  let evaluation ← d.evaluation.mapM o.resolveEvaluation
  return {
    name := d.name
    version := d.version.toNat
    model := d.model
    system := d.system
    temperature := d.temperature
    fewShot, final, tools, schema, evaluation }

end Promptwright
