import Promptwright.Cli.Arguments
import Promptwright.Package.Compile
import Promptwright.Package.Write

/-! # The command line program

`Cli.run` does what the arguments ask for, on a tree of files, and tells how it went: the exit
code, what is printed, why it failed, and the tree as it is afterwards.  Templates are read from the
tree too, below a directory that is given or that of the program's own package.  Code 0 means success,
code 1 that something is wrong with the input, and code 2 that the arguments make no sense. -/

namespace Promptwright.Cli

/-- Why a command fails. -/
inductive Failure
  /-- There is no such dialect.  The names of those that there are may be told. -/
  | unknownLanguage (name : String) (known : List String)
  | loading (dir : String) (e : LoadError)
  | compiling (language : String) (e : CompileError)
  | writing (e : CompileError)
  | schemaFile (e : LoadError)
  | generating (e : CompileError)
  | formatting (file : String) (e : Script.FormatError)
deriving DecidableEq, Repr

namespace Failure

/-- A message, and after it that of the error behind it. -/
def withCause (message : String) (cause : Option String) : String :=
  match cause with
  | some c => message ++ ": " ++ c
  | none => message

/-- The failure in words. -/
def message : Failure → String
  | .unknownLanguage name [] => "language '" ++ name ++ "' is not supported"
  | .unknownLanguage name known =>
    "language '" ++ name ++ "' is not supported (expected one of: " ++
      ", ".intercalate known ++ ")"
  | .loading dir e => "loading prompts from " ++ dir ++ ": " ++ withCause e.message e.cause?
  | .compiling language e =>
    "compiling for '" ++ language ++ "': " ++ withCause e.message e.cause?
  | .writing e => withCause e.message e.cause?
  | .schemaFile e => withCause e.message e.cause?
  | .generating e => withCause e.message e.cause?
  | .formatting file e => "formatting validator for " ++ file ++ ": " ++ e.message

/-- The document error that the failure is due to, if it is. -/
def loadError? : Failure → Option LoadError
  | .loading _ e => some e
  | .schemaFile e => some e
  | _ => none

end Failure

/-- How a run of the program ends. -/
structure Outcome where
  code : Nat
  printed : String
  failure : Option Failure
  files : FileTree

namespace Outcome

/-- A run that succeeds. -/
def success (files : FileTree) (printed : String) : Outcome := ⟨0, printed, none, files⟩

/-- A run that fails. -/
def failed (files : FileTree) (failure : Failure) : Outcome := ⟨1, "", some failure, files⟩

/-- What is written to standard error when a run fails. -/
def complaint (o : Outcome) : String :=
  match o.failure with
  | some f => "Error: " ++ f.message ++ "\n"
  | none => ""

end Outcome

/-- Compiles the prompts below a directory and writes the files.  Nothing is written unless
everything is compiled. -/
def compile (files : FileTree) (out language pattern dir packageRoot : String) : Outcome :=
  match Dialects.builtin.get? language with
  | none => .failed files (.unknownLanguage language Dialects.builtin.names)
  | some dialect =>
    match Prompt.loadAll files dir pattern with
    | .error e => .failed files (.loading dir e)
    | .ok prompts =>
      let compiler : Compiler := { templates := .below packageRoot }
      match compiler.compile files dialect (prompts.map PromptFile.prompt) with
      | .error e => .failed files (.compiling language e)
      | .ok outputs =>
        match OutputFile.writeAll files out outputs with
        | (files, .error e) => .failed files (.writing e)
        | (files, .ok _) => .success files ""

/-- The name of the validator for a schema file: its name without the extension, as an
identifier. -/
def bindingOf (file : String) : String :=
  let stem := ((Path.stem? file).getD "").toList.map fun c =>
    if c = '-' ∨ c = '_' ∨ c = '.' then ' ' else c
  (Identifiers.ofLabel (String.ofList stem)).camel ++ "Schema"

/-- Prints the validator for the schema in a file. -/
def schemaCheck (files : FileTree) (file language : String) (name : Option String) : Outcome :=
  match Dialects.builtin.get? language with
  | none => .failed files (.unknownLanguage language [])
  | some dialect =>
    match Schema.loadFile files file with
    | .error e => .failed files (.schemaFile e)
    | .ok schema =>
      match Fragment.ofSchema (name.getD (bindingOf file)) schema with
      | .error e => .failed files (.generating (.schema e))
      | .ok fragment =>
        match Script.format Gate.defaultWidth (fragment.source dialect) with
        | .error e => .failed files (.formatting file e)
        | .ok text => .success files text

/-- Does what a command says. -/
def runCommand (files : FileTree) : Command → Outcome
  | .compile out language pattern dir packageRoot =>
    compile files out language pattern dir packageRoot
  | .languages => .success files (String.join (Dialects.builtin.names.map (· ++ "\n")))
  | .schemaCheck file language name => schemaCheck files file language name

/-- The name and version of the program. -/
def versionText : String := "promptc 0.1.0\n"

/-- How to use the program. -/
def usage : String := String.join ([
  "Prompt compiler - turns prompt documents into TypeScript and JavaScript modules",
  "",
  "Usage: promptc [-v] compile -o DIR [-l LANGUAGE] [-m GLOB] [-d DIR] [--package-root DIR]",
  "       promptc [-v] languages",
  "       promptc [-v] schema-check FILE [-l LANGUAGE] [--name NAME]"].map (· ++ "\n"))

/-- Does what the arguments ask for.  The program's own package is in the directory `home`. -/
def run (home : String) (files : FileTree) (args : List String) : Outcome :=
  match Request.parse home args with
  | .misuse => ⟨2, "", none, files⟩
  | .help => .success files usage
  | .version => .success files versionText
  | .run c => runCommand files c

end Promptwright.Cli
