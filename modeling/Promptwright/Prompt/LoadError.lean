import Promptwright.Document.Mismatch
import Promptwright.Files.Tree
import Promptwright.Glob.Pattern

/-! # What can be wrong with a prompt

A document of the right shape may still make no sense as a prompt; `Flaw` lists how.  `LoadError`
collects all reasons why prompts cannot be loaded, from a pattern that is none to a schema file
that does not exist. -/

namespace Promptwright

/-- Where a document gives a schema. -/
inductive SchemaPlace
  | output
  | tool (name : String)
deriving DecidableEq, Repr

/-- The name of the place. -/
def SchemaPlace.text : SchemaPlace → String
  | .output => "\x60schema\x60"
  | .tool name => "parameters of tool '" ++ name ++ "'"

/-- What is wrong with a document that has the right shape. -/
inductive Flaw
  | blankName
  | badVersion (version : Int)
  | badTemperature (x : Binary64)
  | badModel (model : String)
  | noMessages (field : String)
  | noTools
  | noCalls
  | badCallType (type : String)
  | notSchema (place : SchemaPlace)
  | noCases
  | noCaseMessages
  | badChecks
  | badCheckOptions (id : String)
  | badCheck
  | noCheckId
  | badCheckName (id : String)
  | badCheckModel (id : String)
  | noForbidden
  | misfitCheck (id : String) (mismatch : Mismatch)
deriving DecidableEq, Repr

/-- The flaw in words. -/
def Flaw.message : Flaw → String
  | .blankName => "\x60name\x60 must not be empty"
  | .badVersion v => "\x60version\x60 must be at least 1, got " ++ toString v
  | .badTemperature x => "\x60temperature\x60 must be between 0 and 2, got " ++ x.positional ""
  | .badModel m => "\x60model\x60 must look like provider@model, got '" ++ m ++ "'"
  | .noMessages field => "\x60" ++ field ++ "\x60 must contain at least one message when given"
  | .noTools => "\x60tools\x60 must contain at least one tool when given"
  | .noCalls => "\x60tool_calls\x60 must contain at least one call when given"
  | .badCallType t => "tool call \x60type\x60 must be \"function\", got '" ++ t ++ "'"
  | .notSchema place =>
    place.text ++ " is not a JSON schema (expected an object with a \x60type\x60 key)"
  | .noCases => "\x60evaluation.evaluations\x60 must contain at least one case"
  | .noCaseMessages => "evaluation \x60messages\x60 must contain at least one message"
  | .badChecks => "\x60checks\x60 must be a list or a map"
  | .badCheckOptions id => "options for check \x60" ++ id ++ "\x60 must be a map"
  | .badCheck => "a check must be a map"
  | .noCheckId => "a check is missing its string \x60id\x60"
  | .badCheckName id => "\x60name\x60 of check \x60" ++ id ++ "\x60 must be a string"
  | .badCheckModel id => "\x60model\x60 of check \x60" ++ id ++ "\x60 must be a string"
  | .noForbidden => "\x60forbidden\x60 must list at least one word when given"
  | .misfitCheck id m => "check \x60" ++ id ++ "\x60: " ++ (m.message? .value).getD ""

/-- Why a reference to a file with a schema leads nowhere. -/
inductive ReferenceError
  | notJsonName
  | unreadable (e : OsError)
  | notJson
deriving DecidableEq, Repr

/-- The formats of documents. -/
inductive Format
  | yaml
  | json
deriving DecidableEq, Repr

namespace Format

/-- The format that an extension stands for. -/
def ofPath? (path : String) : Option Format :=
  match Path.extension? path with
  | some "yaml" => some .yaml
  | some "yml" => some .yaml
  | some "json" => some .json
  | _ => none

/-- The name of the format. -/
def name : Format → String
  | .yaml => "YAML"
  | .json => "JSON"

/-- The place that trees of documents in the format come from. -/
def source : Format → Source
  | .yaml => .yaml
  | .json => .json

end Format

/-- Why prompts cannot be loaded. -/
inductive LoadError
  | io (path : String) (e : OsError)
  /-- The document cannot be read or does not have the right shape. -/
  | document (format : Format) (file : String) (mismatch : Mismatch)
  | pattern (pattern : String) (e : Glob.PatternError)
  | invalid (file : String) (flaw : Flaw)
  | reference (file reference : String) (e : ReferenceError)
  | unsupportedFormat (path : String)
deriving DecidableEq, Repr

namespace LoadError

/-- What is said where nothing can be said about the content of a text. -/
def unreadableText : String := "the text cannot be read"

/-- The error that lies behind another one and is told along with it. -/
def cause? : LoadError → Option String
  | .io _ e => some e.message
  | .document format _ m => some ((m.message? format.source).getD unreadableText)
  | .pattern _ e => some e.message
  | _ => none

/-- The error in words. -/
def message : LoadError → String
  | .io path e => "I/O error reading " ++ path ++ ": " ++ e.message
  | .document format file m =>
    format.name ++ " error in " ++ file ++ ": " ++
      (m.message? format.source).getD unreadableText
  | .pattern p e => "Invalid glob pattern '" ++ p ++ "': " ++ e.message
  | .invalid file flaw => "Invalid prompt in " ++ file ++ ": " ++ flaw.message
  | .reference file r e =>
    "Cannot resolve '" ++ r ++ "' from " ++ file ++ ": " ++
      (match e with
      | .notJsonName => "must be a json file"
      | .unreadable e => e.message
      | .notJson => unreadableText)
  | .unsupportedFormat path => "Unsupported document format: " ++ path

end LoadError

end Promptwright
