import Promptwright.Json.Printer
import Promptwright.Script.Literal
import Promptwright.Validator.Basic

/-! # The text of validators

`Validator.source` writes a validator as an expression of the zod library. -/

namespace Promptwright.Validator

/-- A comment cannot hold its own end, so a space is put into it. -/
def breakCommentEnds : List Char → List Char
  | '*' :: '/' :: cs => '*' :: ' ' :: '/' :: breakCommentEnds cs
  | c :: cs => c :: breakCommentEnds cs
  | [] => []

namespace Gap

/-- The gap in words. -/
def reason : Gap → String
  | .noType => "no \"type\" given"
  | .unknownType name => "unknown type \"" ++ name ++ "\""
  | .emptyTypes => "empty \"type\" list"
  | .emptyUnion => "empty union"
  | .emptyIntersection => "empty intersection"

/-- A comment that tells about the gap. -/
def comment (g : Gap) : String :=
  "/* " ++ String.ofList (breakCommentEnds g.reason.toList) ++ ": accepting any value */"

end Gap

/-- The method that checks a format. -/
def TextFormat.method : TextFormat → String
  | .email => ".email()"
  | .url => ".url()"
  | .uuid => ".uuid()"
  | .dateTime => ".datetime()"

/-- A call of a method with a number. -/
def call (method : String) (n : Json.Number) : String := "." ++ method ++ "(" ++ n.text ++ ")"

/-- A condition on a text. -/
def TextCheck.text : TextCheck → String
  | .minLength n => call "min" n
  | .maxLength n => call "max" n
  | .pattern regex => ".regex(new RegExp(" ++ Script.quote regex ++ "))"
  | .format f => f.method

/-- The method that compares with a bound. -/
def Relation.method : Relation → String
  | .greater => "gt"
  | .atLeast => "gte"
  | .less => "lt"
  | .atMost => "lte"
  | .multipleOf => "multipleOf"

/-- A condition on a number. -/
def NumberCheck.text (c : NumberCheck) : String := call c.relation.method c.bound

/-- A condition on the number of items of a list. -/
def SizeCheck.text : SizeCheck → String
  | .min n => call "min" n
  | .max n => call "max" n

/-- The same condition on a tuple, which has no such methods. -/
def SizeCheck.tupleText : SizeCheck → String
  | .min n => ".refine((items) => items.length >= " ++ n.text ++ ")"
  | .max n => ".refine((items) => items.length <= " ++ n.text ++ ")"

/-- Texts one after the other. -/
def concat (ss : List String) : String := ss.foldr (· ++ ·) ""

/-- The mark of a property that may be missing. -/
def optionalText (required : Bool) : String := if required then "" else ".optional()"

mutual

/-- A validator as an expression. -/
def source : Validator → String
  | .any => "z.any()"
  | .never => "z.never()"
  | .unknown gap => gap.comment ++ " z.any()"
  | .text checks => "z.string()" ++ concat (checks.map TextCheck.text)
  | .number whole checks =>
    (if whole then "z.number().int()" else "z.number()") ++ concat (checks.map NumberCheck.text)
  | .boolean => "z.boolean()"
  | .null => "z.null()"
  | .literal value => "z.literal(" ++ value.compact ++ ")"
  | .choice values => "z.enum([" ++ ", ".intercalate (values.map Json.quoted) ++ "])"
  | .union members => "z.union([" ++ itemsSource members ++ "])"
  | .intersection left right => "z.intersection(" ++ source left ++ ", " ++ source right ++ ")"
  | .array item checks => "z.array(" ++ source item ++ ")" ++ concat (checks.map SizeCheck.text)
  | .tuple items checks =>
    "z.tuple([" ++ itemsSource items ++ "])" ++ concat (checks.map SizeCheck.tupleText)
  | .object [] rest => "z.object(\x7b\x7d)" ++ restSource rest
  | .object (p :: ps) rest =>
    "z.object(\x7b\n" ++ propertiesSource (p :: ps) ++ "\n\x7d)" ++ restSource rest
  | .nullable v => source v ++ ".nullable()"
  | .described v description => source v ++ ".describe(" ++ Script.quote description ++ ")"
  termination_by structural v => v

/-- Validators between commas. -/
def itemsSource : List Validator → String
  | [] => ""
  | [v] => source v
  | v :: vs => source v ++ ", " ++ itemsSource vs
  termination_by structural vs => vs

/-- Properties on lines of their own. -/
def propertiesSource : List (Property Validator) → String
  | [] => ""
  | [⟨name, required, v⟩] => Script.quote name ++ ": " ++ source v ++ optionalText required
  | ⟨name, required, v⟩ :: ps =>
    Script.quote name ++ ": " ++ source v ++ optionalText required ++ ",\n" ++ propertiesSource ps
  termination_by structural ps => ps

/-- What else an object may hold. -/
def restSource : Rest Validator → String
  | .free => ""
  | .nothing => ".strict()"
  | .each v => ".catchall(" ++ source v ++ ")"
  termination_by structural r => r

end

end Promptwright.Validator
