import Promptwright.Package.Module
import Promptwright.Package.TypesTemplate

/-! # Files with shared types

In typed dialects the modules share the types of prompts, tools and messages.  They stand in
template files, which are copied in the order of their paths; only their imports of the validator
library are changed to import it from where the dialect says. -/

namespace Promptwright

/-- Where the template files are. -/
inductive Templates
  /-- The template that comes with the program. -/
  | builtin
  /-- The files at any depth below `templates/typescript` in a directory. -/
  | below (root : String)
deriving DecidableEq, Repr

/-! ## The import of the validator library -/

namespace LibraryImport

/-- A single or double quote. -/
def isQuote (c : Char) : Bool := c == '\'' || c == '"'

/-- The length of `from`, white space and the quoted name of the library at the start of a
text. -/
def length? : List Char → Option Nat
  | 'f' :: 'r' :: 'o' :: 'm' :: cs =>
    let blanks := cs.takeWhile Text.isBlank
    match cs.dropWhile Text.isBlank with
    | q :: 'z' :: 'o' :: 'd' :: r :: _ =>
      if isQuote q && isQuote r then some (4 + blanks.length + 5) else none
    | _ => none
  | _ => none

/-- Replaces every import of the library, after leaving out `skip` characters. -/
def replaceFrom (replacement : List Char) : Nat → List Char → List Char
  | _, [] => []
  | skip + 1, _ :: cs => replaceFrom replacement skip cs
  | 0, c :: cs =>
    match length? (c :: cs) with
    | some n => replacement ++ replaceFrom replacement (n - 1) cs
    | none => c :: replaceFrom replacement 0 cs

/-- What an import of the library from a path ends in. -/
def clause (path : String) : List Char := ['f', 'r', 'o', 'm', ' '] ++ Script.quoteChars path.toList

/-- Lets a text import the library from a path. -/
def replace (path contents : String) : String :=
  String.ofList (replaceFrom (clause path) 0 contents.toList)

end LibraryImport

/-! ## The files -/

/-- The directory with the templates, below another one. -/
def templateDir : String := "templates/typescript"

/-- The names on the way from a directory to each of the files at any depth below it, in the order
in which the disk lists them.  Directories do not lie deeper than there are entries, which bounds the
number of steps. -/
def collectFiles (files : FileTree) : Nat → String → Except CompileError (List (List String))
  | 0, _ => .ok []
  | fuel + 1, dir =>
    match files.readDir dir with
    | .error e => .error (.template dir e)
    | .ok listed => do
      let found ← listed.mapM fun (name, isDirectory) =>
        if isDirectory then
          (collectFiles files fuel (Path.join dir name)).map fun found => found.map (name :: ·)
        else .ok [[name]]
      return found.flatten

/-- The path of a template below the directory of all of them, and its text. -/
def readTemplate (files : FileTree) (dir : String) (names : List String) :
    Except CompileError (String × String) :=
  match files.readText (Path.joinAll dir names) with
  | .error e => .error (.template (Path.joinAll dir names) e)
  | .ok text => .ok ("/".intercalate names, text)

/-- The paths and texts of all template files, in the order of the names on the way to them. -/
def Templates.read (files : FileTree) : Templates → Except CompileError (List (String × String))
  | .builtin => .ok [("types.ts", typesTemplate)]
  | .below root => do
    let dir := Path.join root templateDir
    let found ← collectFiles files (files.entries.length + 1) dir
    (found.mergeSort FileTree.namesLe).mapM (readTemplate files dir)

/-- The files with shared types, if the dialect has types. -/
def sharedTypes (files : FileTree) (templates : Templates) (d : Dialect) :
    Except CompileError (List OutputFile) :=
  if d.typed then do
    let texts ← templates.read files
    return texts.map fun (path, text) =>
      ⟨d.language, path, LibraryImport.replace d.validatorPath text⟩
  else .ok []

end Promptwright
