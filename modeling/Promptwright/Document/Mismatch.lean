import Promptwright.Yaml.Scalar
import Promptwright.Text.Escaped

/-! # Where a document and its expected shape part

A document is read against a shape: records with named fields, lists, texts, numbers.
`Mismatch` says how it failed to fit, and `Mismatch.message` words it.  A part of a text that
cannot be read is a mismatch without a message, since nothing can be said about its content.

The wording and a few liberties differ with the place a tree comes from, its `Source`: in YAML
a record is always written as a mapping, elsewhere a list of its fields in order will do. -/

namespace Promptwright

/-- The place a tree comes from. -/
inductive Source
  /-- A YAML text. -/
  | yaml
  /-- A JSON text. -/
  | json
  /-- A part of a text that was set aside before its shape was known. -/
  | aside (yaml : Bool)
  /-- A JSON value that was read earlier. -/
  | value
deriving DecidableEq, Repr

namespace Source

/-- The source of the parts that are set aside. -/
def setAside : Source → Source
  | .yaml => .aside true
  | .json => .aside false
  | .aside y => .aside y
  | .value => .value

/-- Whether the wording is that of YAML. -/
def speaksYaml : Source → Bool
  | .yaml => true
  | .aside y => y
  | _ => false

/-- What null is called. -/
def nullName (s : Source) : String := if s.speaksYaml then "unit value" else "null"

/-- The text of a floating number. -/
def floatText (s : Source) (x : Binary64) : String :=
  if s.speaksYaml then x.positional ".0" else Json.Number.floatText x

end Source

/-- What stands in the document where something else is expected. -/
inductive Found
  | atom (a : Atom)
  | sequence
  | mapping
  /-- A value with a tag of the document's own. -/
  | tagged
deriving DecidableEq, Repr

namespace Found

/-- What was found, in words. -/
def text (src : Source) : Found → String
  | .atom .null => src.nullName
  | .atom (.bool b) => "boolean \x60" ++ (if b then "true" else "false") ++ "\x60"
  | .atom (.integer n) => "integer \x60" ++ toString n ++ "\x60"
  | .atom (.wide n) =>
    "integer \x60" ++ toString n ++ (if n < 0 then "\x60 as i128" else "\x60 as u128")
  | .atom (.float x) => "floating point \x60" ++ src.floatText x ++ "\x60"
  | .atom (.string s) => "string " ++ Text.escaped s
  | .sequence => "sequence"
  | .mapping => "map"
  | .tagged => "enum"

end Found

/-- How a document fails to have the expected shape. -/
inductive Mismatch
  /-- The text cannot be read up to here, or may not be used like this in any document. -/
  | unreadable
  | invalidType (found : Found) (expected : String)
  | invalidValue (found : Found) (expected : String)
  | invalidLength (length : Nat) (expected : String)
  | missingField (name : String)
  | duplicateField (name : String)
  | unknownField (name : String) (expected : List String)
  | unknownVariant (name : String) (expected : List String)
deriving DecidableEq, Repr

namespace Mismatch

/-- A name as messages show it. -/
def named (name : String) : String := "\x60" ++ name ++ "\x60"

/-- The names that were expected, as a phrase. -/
def oneOf : List String → String
  | [] => ""
  | [a] => named a
  | [a, b] => named a ++ " or " ++ named b
  | as => "one of " ++ ", ".intercalate (as.map named)

/-- What is wrong, in words; `none` for a text that cannot be read. -/
def message? (src : Source) : Mismatch → Option String
  | .unreadable => none
  | .invalidType found expected =>
    some ("invalid type: " ++ found.text src ++ ", expected " ++ expected)
  | .invalidValue found expected =>
    some ("invalid value: " ++ found.text src ++ ", expected " ++ expected)
  | .invalidLength length expected =>
    some ("invalid length " ++ toString length ++ ", expected " ++ expected)
  | .missingField name => some ("missing field " ++ named name)
  | .duplicateField name => some ("duplicate field " ++ named name)
  | .unknownField name [] => some ("unknown field " ++ named name ++ ", there are no fields")
  | .unknownField name expected =>
    some ("unknown field " ++ named name ++ ", expected " ++ oneOf expected)
  | .unknownVariant name [] => some ("unknown variant " ++ named name ++ ", there are no variants")
  | .unknownVariant name expected =>
    some ("unknown variant " ++ named name ++ ", expected " ++ oneOf expected)

end Mismatch

end Promptwright
