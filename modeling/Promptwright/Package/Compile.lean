import Promptwright.Package.SharedTypes

/-! # Compiling

`Compiler.compile` turns prompts into the files of a package: the shared types, a module for each
prompt, and the index.  Every file passes a gate that formats it, so that no file leaves the
compiler unformatted.  The result is all files or one error.

Modules are generated, and files formatted, independently of one another, perhaps by several
workers at once.  A `Schedule` says in which order they finish.  It matters only for which of
several errors is reported. -/

namespace Promptwright

/-! ## Work in any order -/

/-- The first error among some results, taken in the given order of their indices and then from
the first to the last. -/
def firstError? {ε α : Type} (order : List Nat) (results : List (Except ε α)) : Option ε :=
  let errors := (order.filterMap fun i => results[i]?) ++ results
  errors.findSome? fun r =>
    match r with
    | .ok _ => none
    | .error e => some e

/-- Applies a function to all items, which finish in the given order: all results, in the order
of the items, or the error that came first. -/
def mapInOrder {ε α β : Type} (order : List Nat) (f : α → Except ε β) (xs : List α) :
    Except ε (List β) :=
  let results := xs.map f
  match firstError? order results with
  | some e => .error e
  | none => .ok (results.filterMap Except.toOption)

/-- The orders in which work is done: by default, from the first item to the last. -/
structure Schedule where
  modules : List Nat := []
  formatting : List Nat := []

/-! ## Formatting -/

/-- A way of formatting. -/
abbrev Formatter := String → Except Script.FormatError String

/-- Formatters by the extension of the files that they are for. -/
structure Gate where
  formatters : List (String × Formatter)

namespace Gate

/-- No formatters, so that every file is refused. -/
def empty : Gate := ⟨[]⟩

/-- The gate with another formatter for an extension. -/
def insert (g : Gate) (extension : String) (f : Formatter) : Gate :=
  ⟨(extension, f) :: g.formatters.filter fun e => e.1 != extension⟩

/-- The formatter for an extension. -/
def get? (g : Gate) (extension : String) : Option Formatter := g.formatters.lookup extension

/-- The extensions of scripts. -/
def scriptExtensions : List String := ["js", "mjs", "cjs", "ts", "mts", "cts", "tsx", "jsx"]

/-- The width of a level of indentation. -/
def defaultWidth : Nat := 2

/-- The script formatter for every extension of scripts. -/
def standard : Gate :=
  scriptExtensions.foldl (fun g extension => g.insert extension (Script.format defaultWidth)) empty

/-- What follows the last dot of a path, or nothing. -/
def extension (path : String) : String :=
  if path.toList.contains '.' then
    String.ofList (path.toList.reverse.takeWhile (· != '.')).reverse
  else ""

/-- Formats a file. -/
def formatFile (g : Gate) (file : OutputFile) : Except CompileError OutputFile :=
  match g.get? (extension file.path) with
  | none => .error (.formatting file.path (.noFormatter (extension file.path)))
  | some f =>
    match f file.contents with
    | .ok contents => .ok { file with contents }
    | .error e => .error (.formatting file.path (.refused e))

end Gate

/-! ## The files of a package -/

/-- The content of the module of a prompt, or why there is none. -/
def moduleOf (p : Prompt) : Except CompileError ModuleContent :=
  match ModuleContent.ofPrompt p with
  | .ok m => .ok m
  | .error e => .error (.schema e)

/-- The first path that occurs a second time, given the paths that were seen before. -/
def repeatedPath? : List String → List String → Option String
  | _, [] => none
  | seen, p :: ps => if seen.contains p then some p else repeatedPath? (p :: seen) ps

/-- The files of modules and the index after them.  No two may have the same path. -/
def finish (d : Dialect) (ms : List ModuleContent) : Except CompileError (List OutputFile) :=
  let files := ms.map (·.file d)
  let index := indexFile d ms
  match repeatedPath? [] (files.map OutputFile.path) with
  | some path => .error (.twoPrompts path)
  | none =>
    if (files.map OutputFile.path).contains index.path then .error (.promptAtIndex index.path)
    else .ok (files ++ [index])

/-- A compiler: formatters and the templates for shared types. -/
structure Compiler where
  gate : Gate := .standard
  templates : Templates := .builtin
  schedule : Schedule := {}

namespace Compiler

/-- All files for some prompts, not yet formatted. -/
def assemble (c : Compiler) (files : FileTree) (d : Dialect) (ps : List Prompt) :
    Except CompileError (List OutputFile) := do
  let types ← sharedTypes files c.templates d
  let modules ← mapInOrder c.schedule.modules moduleOf ps
  return types ++ (← finish d modules)

/-- All files for some prompts. -/
def compile (c : Compiler) (files : FileTree) (d : Dialect) (ps : List Prompt) :
    Except CompileError (List OutputFile) := do
  mapInOrder c.schedule.formatting c.gate.formatFile (← c.assemble files d ps)

end Compiler

end Promptwright
