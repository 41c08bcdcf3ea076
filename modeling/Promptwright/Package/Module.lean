import Promptwright.Dialect
import Promptwright.Identifiers
import Promptwright.Json.Printer
import Promptwright.Package.File
import Promptwright.Prompt.Basic
import Promptwright.Validator.Text

/-! # Prompt modules

Every prompt becomes a module of its own, with validators for its tools and its answer and with
the prompt as an object.  `ModuleContent` is what such a module holds whatever the dialect;
`ModuleContent.source` writes it.  The index re-exports the prompts of all modules. -/

namespace Promptwright

/-! ## What a module holds -/

/-- A validator that is bound to a name. -/
structure Fragment where
  binding : String
  validator : Validator

/-- A tool as the prompt object lists it. -/
structure ToolEntry where
  name : String
  description : String
  /-- The name of the validator of its parameters. -/
  parameters : String

/-- What the module of a prompt holds. -/
structure ModuleContent where
  /-- The name of the prompt object. -/
  binding : String
  /-- The name of the module, without an extension. -/
  stem : String
  prompt : Prompt
  tools : List ToolEntry
  /-- The name of the validator of the answer. -/
  schema : Option String
  fragments : List Fragment

namespace Fragment

/-- The validator of a schema under a name. -/
def ofSchema (binding : String) (s : Schema) : SchemaReading Fragment := do
  return ⟨binding, ← Validator.ofSchema s.value⟩

end Fragment

namespace ToolEntry

/-- The entry of a tool. -/
def ofTool (t : Tool) : ToolEntry :=
  let ids := Identifiers.forBinding t.name
  ⟨ids.snake, t.description, ids.camel ++ "Schema"⟩

end ToolEntry

namespace ModuleContent

/-- The name of a prompt object. -/
def bindingOf (p : Prompt) : String :=
  (Identifiers.forBinding p.name).camel ++ "PromptV" ++ toString p.version

/-- The name of the validator of an answer. -/
def schemaBindingOf (p : Prompt) : String :=
  (Identifiers.forBinding p.name).camel ++ "SchemaV" ++ toString p.version

/-- The name of a module. -/
def stemOf (p : Prompt) : String :=
  (Identifiers.ofLabel p.name).fileSlug ++ "_v" ++ toString p.version

/-- The validator of the parameters of a tool. -/
def toolFragment (t : Tool) : SchemaReading Fragment :=
  Fragment.ofSchema (ToolEntry.ofTool t).parameters t.parameters

/-- The validator of the answer, if it has a schema. -/
def answerFragments (p : Prompt) : SchemaReading (List Fragment) :=
  match p.schema with
  | none => .ok []
  | some s => do return [← Fragment.ofSchema (schemaBindingOf p) s]

/-- What the module of a prompt holds. -/
def ofPrompt (p : Prompt) : SchemaReading ModuleContent := do
  let ofTools ← p.tools.mapM toolFragment
  let ofAnswer ← answerFragments p
  return {
    binding := bindingOf p
    stem := stemOf p
    prompt := p
    tools := p.tools.map ToolEntry.ofTool
    schema := p.schema.map fun _ => schemaBindingOf p
    fragments := ofTools ++ ofAnswer }

end ModuleContent

/-! ## How it is written -/

/-- A line with its end. -/
def line (s : String) : String := s ++ "\n"

/-- The name of the type of prompt objects. -/
def promptType : String := "PromptDefinition"

/-- The name of the module with the shared types. -/
def typesStem : String := "types"

namespace Fragment

/-- The name of the type that goes with a validator. -/
def typeName (f : Fragment) : String :=
  String.ofList (Identifiers.upperFirst f.binding.toList)

/-- The statements that bind a validator and, in typed dialects, declare its type. -/
def source (d : Dialect) (f : Fragment) : String :=
  let expression := f.validator.source
  let bound := match d.style with
    | .esm => line ("export const " ++ f.binding ++ " = " ++ expression ++ ";")
    | .commonJs =>
      line ("const " ++ f.binding ++ " = " ++ expression ++ ";") ++
        line ("module.exports." ++ f.binding ++ " = " ++ f.binding ++ ";")
  let mark := if d.style = .esm then "export " else ""
  if d.typed then
    bound ++ line (mark ++ "type " ++ f.typeName ++ " = z.infer<typeof " ++ f.binding ++ ">;")
  else bound

end Fragment

/-- A tool as an item of a list. -/
def ToolEntry.source (t : ToolEntry) : String :=
  line "\x7b" ++
  line ("name: " ++ Script.quote t.name ++ ",") ++
  line ("description: " ++ Script.quote t.description ++ ",") ++
  line ("parameters: " ++ t.parameters ++ ",") ++
  line "\x7d,"

/-- A list of messages under a key, if there are any. -/
def messagesSource (key : String) (ms : List Message) : String :=
  if ms.isEmpty then "" else line (key ++ ": " ++ (Message.listToJson ms).pretty ++ ",")

namespace ModuleContent

/-- The imports of a module: the validator library if there are validators, and the type of
prompts in typed dialects. -/
def imports (d : Dialect) (m : ModuleContent) : String :=
  let library :=
    if m.fragments.isEmpty then ""
    else
      match d.style with
      | .esm => line ("import \x7b z \x7d from " ++ Script.quote d.validatorPath ++ ";")
      | .commonJs =>
        line ("const \x7b z \x7d = require(" ++ Script.quote d.validatorPath ++ ");")
  let types :=
    if d.typed then
      line ("import type \x7b " ++ promptType ++ " \x7d from " ++
        Script.quote (d.importPath typesStem) ++ ";")
    else ""
  library ++ types

/-- The validators, each after a blank line. -/
def validators (d : Dialect) (m : ModuleContent) : String :=
  (m.fragments.map fun f => "\n" ++ f.source d).foldr (· ++ ·) ""

/-- The statement that starts the prompt object. -/
def opening (d : Dialect) (m : ModuleContent) : String :=
  let annotation := if d.typed then ": " ++ promptType else ""
  match d.style with
  | .esm => line ("export const " ++ m.binding ++ annotation ++ " = \x7b")
  | .commonJs => line ("const " ++ m.binding ++ annotation ++ " = \x7b")

/-- The members of the prompt object and its end. -/
def literal (m : ModuleContent) : String :=
  let p := m.prompt
  line ("name: " ++ Script.quote p.name ++ ",") ++
  line ("version: " ++ toString p.version ++ ",") ++
  line ("model: " ++ (match p.model with
    | some model => Script.quote model
    | none => "undefined") ++ ",") ++
  line ("temperature: " ++ p.temperature.positional "" ++ ",") ++
  line ("systemPrompt: " ++ Script.quote p.system ++ ",") ++
  messagesSource "fewShotMessages" p.fewShot ++
  messagesSource "finalMessages" p.final ++
  (if m.tools.isEmpty then ""
    else line "tools: [" ++ (m.tools.map ToolEntry.source).foldr (· ++ ·) "" ++ line "],") ++
  (match m.schema with
    | some binding => line ("schema: " ++ binding ++ ",")
    | none => "") ++
  line "\x7d;"

/-- The statement that exports the prompt object, where the first one does not. -/
def closing (d : Dialect) (m : ModuleContent) : String :=
  match d.style with
  | .esm => ""
  | .commonJs => line ("module.exports." ++ m.binding ++ " = " ++ m.binding ++ ";")

/-- The text of a module. -/
def source (d : Dialect) (m : ModuleContent) : String :=
  m.imports d ++ m.validators d ++ "\n" ++ m.opening d ++ m.literal ++ m.closing d

/-- The file of a module. -/
def file (d : Dialect) (m : ModuleContent) : OutputFile :=
  ⟨d.language, d.fileName m.stem, m.source d⟩

end ModuleContent

/-! ## The index -/

/-- The line of the index that re-exports a prompt. -/
def indexLine (d : Dialect) (m : ModuleContent) : String :=
  let specifier := Script.quote (d.importPath m.stem)
  match d.style with
  | .esm => line ("export \x7b " ++ m.binding ++ " \x7d from " ++ specifier ++ ";")
  | .commonJs =>
    line ("module.exports." ++ m.binding ++ " = require(" ++ specifier ++ ")." ++ m.binding ++ ";")

/-- The line of the index that re-exports the type of prompts. -/
def indexTypes (d : Dialect) : String :=
  if d.typed then
    line ("export type \x7b " ++ promptType ++ " \x7d from " ++
      Script.quote (d.importPath typesStem) ++ ";")
  else ""

/-- The file that re-exports the prompts of all modules. -/
def indexFile (d : Dialect) (ms : List ModuleContent) : OutputFile :=
  ⟨d.language, d.fileName "index", indexTypes d ++ (ms.map (indexLine d)).foldr (· ++ ·) ""⟩

end Promptwright
