import Promptwright.Document.JsonText
import Promptwright.Glob.Search
import Promptwright.Prompt.Resolve
import Promptwright.Yaml.Tree

/-! # Loading prompts

`Prompt.parse` reads one document and `Prompt.loadFile` a file.  `Prompt.discover` finds the
documents below a directory and `Prompt.loadAll` loads them, in the order of their paths. -/

namespace Promptwright

/-- Reads a text of a format. -/
def Format.document : Format → String → Document
  | .yaml, text => .ofYamlText text
  | .json, text => .ofJsonText text

/-- Reads a document of a file with a reader. -/
def Format.read {α : Type} (f : Format) (file text : String) (reader : Source → Node → Reading α) :
    Except LoadError α :=
  match (f.document text).read (reader f.source) with
  | .ok a => .ok a
  | .error m => .error (.document f file m)

namespace Schema

/-- The schema in a file.  It is taken as it is, references included. -/
def loadFile (files : FileTree) (path : String) : Except LoadError Schema :=
  match Format.ofPath? path with
  | none => .error (.unsupportedFormat path)
  | some f =>
    match files.readText path with
    | .error e => .error (.io path e)
    | .ok text => (f.read path text fun _ => Node.json).map Schema.mk

end Schema

/-! ## Braces -/

/-- Replaces the first pair of braces by each of the choices between its commas, and so on with
what results.  Every replacement uses up a closing brace, so their number bounds the steps. -/
def expandBracesWith : Nat → List Char → List (List Char)
  | 0, cs => [cs]
  | fuel + 1, cs =>
    match Text.cutAt? '{' cs with
    | none => [cs]
    | some (before, inside) =>
      match Text.cutAt? '}' inside with
      | none => [cs]
      | some (choices, after) =>
        (Text.splitAt ',' choices).flatMap fun choice =>
          expandBracesWith fuel (before ++ choice ++ after)

/-- The patterns that a pattern with alternatives in braces stands for. -/
def expandBraces (pattern : String) : List String :=
  (expandBracesWith (pattern.toList.count '}') pattern.toList).map String.ofList

namespace Prompt

/-- The prompt in the text of a document. -/
def parse (o : Origin) (f : Format) (text : String) : Except LoadError Prompt := do
  let draft ← f.read o.file text PromptDraft.record.read
  draft.resolve o

/-- The prompt in a file. -/
def loadFile (files : FileTree) (path : String) : Except LoadError PromptFile :=
  match Format.ofPath? path with
  | none => .error (.unsupportedFormat path)
  | some f =>
    match files.readText path with
    | .error e => .error (.io path e)
    | .ok text => (parse ⟨path, files⟩ f text).map (PromptFile.mk path)

/-! ## Discovery -/

/-- The pattern for prompt documents unless another one is given. -/
def defaultPattern : String := "**/*prompt.\x7byaml,yml\x7d"

/-- The files that one of several patterns matches below a directory. -/
def discoverEach (files : FileTree) (dir : String) (patterns : List String) :
    Except LoadError (List String) :=
  match patterns with
  | [] => .ok []
  | p :: ps =>
    match Glob.search files (Path.join dir p) with
    | .error e => .error (.pattern p e)
    | .ok paths => do return paths.filter files.isFile ++ (← discoverEach files dir ps)

/-- Leaves out every path that has the same parts as the path before it, which is `last` for the
first one. -/
def dropRepeated (last : Option (List Path.Part)) : List String → List String
  | [] => []
  | p :: ps =>
    if last = some (Path.parts p) then dropRepeated last ps
    else p :: dropRepeated (some (Path.parts p)) ps

/-- The files below a directory that a pattern with alternatives matches, each once and in the
order of their paths. -/
def discover (files : FileTree) (dir pattern : String) : Except LoadError (List String) := do
  return dropRepeated none ((← discoverEach files dir (expandBraces pattern)).mergeSort Path.le)

/-- The prompts in the files below a directory that a pattern matches. -/
def loadAll (files : FileTree) (dir pattern : String) : Except LoadError (List PromptFile) := do
  (← discover files dir pattern).mapM (loadFile files)

end Prompt

end Promptwright
