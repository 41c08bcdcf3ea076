import Promptwright.Files.Tree
import Promptwright.Script.Format
import Promptwright.Validator.OfSchema

/-! # Generated files

Compiling yields files with paths below the output directory.  `CompileError` collects what can
go wrong on the way and while the files are written. -/

namespace Promptwright

/-- A generated file. -/
structure OutputFile where
  /-- The language tag of the dialect. -/
  language : String
  /-- The path below the output directory. -/
  path : String
  contents : String
deriving DecidableEq, Repr

/-- Why a file is not formatted. -/
inductive FormattingFault
  | noFormatter (extension : String)
  | refused (e : Script.FormatError)
deriving DecidableEq, Repr

/-- The fault in words. -/
def FormattingFault.message : FormattingFault → String
  | .noFormatter extension => "no formatter for extension '" ++ extension ++ "'"
  | .refused e => e.message

/-- Why prompts are not compiled or files not written. -/
inductive CompileError
  | schema (e : SchemaError)
  | template (path : String) (e : OsError)
  | formatting (path : String) (fault : FormattingFault)
  | twoPrompts (path : String)
  | promptAtIndex (path : String)
  | write (path : String) (e : OsError)
deriving DecidableEq, Repr

namespace CompileError

/-- The error in words. -/
def message : CompileError → String
  | .schema e => "Invalid schema at " ++ SchemaPath.text e.path ++ ": " ++ e.fault.message
  | .template path e => "Cannot read template " ++ path ++ ": " ++ e.message
  | .formatting path fault => "Formatting failed for " ++ path ++ ": " ++ fault.message
  | .twoPrompts path =>
    "Unexpected error: two prompts produce the output file '" ++ path ++ "'"
  | .promptAtIndex path =>
    "Unexpected error: a prompt module collides with the index file '" ++ path ++ "'"
  | .write path e => "I/O error writing " ++ path ++ ": " ++ e.message

/-- The error that lies behind another one and is told along with it. -/
def cause? : CompileError → Option String
  | .template _ e => some e.message
  | .write _ e => some e.message
  | _ => none

end CompileError

end Promptwright
