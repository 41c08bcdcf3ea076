/-! # Dialects

A `Dialect` says in which form modules are generated: with which statements they import and
export, whether they carry types, and how they name other modules.  A `Dialects` value is a set
of dialects with names, kept in the order in which the names came up. -/

namespace Promptwright

/-- How modules import and export. -/
inductive ModuleStyle
  /-- With `import` and `export` statements. -/
  | esm
  /-- With `require` and `module.exports`. -/
  | commonJs
deriving DecidableEq, Repr

/-- The form of generated modules. -/
structure Dialect where
  /-- The tag that every generated file carries. -/
  language : String
  /-- The extension of generated files, without its dot. -/
  extension : String
  style : ModuleStyle := .esm
  /-- Whether modules hold types and type annotations. -/
  typed : Bool := false
  /-- Where the validator library is imported from. -/
  validatorPath : String := "zod"
  /-- Whether imports of generated modules spell out the extension. -/
  extensionInImports : Bool := false
deriving DecidableEq, Repr

namespace Dialect

/-- What follows the name of a generated module in an import. -/
def importSuffix (d : Dialect) : String := if d.extensionInImports then "." ++ d.extension else ""

/-- A generated module as imports name it. -/
def importPath (d : Dialect) (stem : String) : String := "./" ++ stem ++ d.importSuffix

/-- The name of a generated file. -/
def fileName (d : Dialect) (stem : String) : String := stem ++ "." ++ d.extension

/-- TypeScript for the usual tools. -/
def typescript : Dialect where
  language := "typescript"
  extension := "ts"
  typed := true

/-- TypeScript for Deno, which imports by full paths. -/
def deno : Dialect where
  language := "typescript"
  extension := "ts"
  typed := true
  validatorPath := "https://deno.land/x/zod@v3.24.1/mod.ts"
  extensionInImports := true

/-- JavaScript with `require`. -/
def nodeCommonJs : Dialect where
  language := "node"
  extension := "js"
  style := .commonJs

/-- JavaScript with `import`. -/
def nodeEsm : Dialect where
  language := "node"
  extension := "js"

end Dialect

/-- Dialects with names. -/
structure Dialects where
  entries : List (String × Dialect)
deriving DecidableEq, Repr

namespace Dialects

/-- No dialects. -/
def empty : Dialects := ⟨[]⟩

/-- Sets the dialect of a name: in its place if the name is there, else at the end. -/
def setEntry (name : String) (d : Dialect) : List (String × Dialect) → List (String × Dialect)
  | [] => [(name, d)]
  | (n, x) :: es => if n = name then (n, d) :: es else (n, x) :: setEntry name d es

/-- The dialects with one more, or with another one under a name. -/
def insert (ds : Dialects) (name : String) (d : Dialect) : Dialects :=
  ⟨setEntry name d ds.entries⟩

/-- The dialect of a name. -/
def get? (ds : Dialects) (name : String) : Option Dialect := ds.entries.lookup name

/-- The names, in the order in which they came up. -/
def names (ds : Dialects) : List String := ds.entries.map Prod.fst

/-- The number of names. -/
def size (ds : Dialects) : Nat := ds.entries.length

/-- The dialects that everyone knows. -/
def builtin : Dialects :=
  empty
    |>.insert "typescript" .typescript
    |>.insert "deno" .deno
    |>.insert "node" .nodeCommonJs
    |>.insert "node-esm" .nodeEsm
    |>.insert "node-cjs" .nodeCommonJs

end Dialects

end Promptwright
