import Promptwright.Json.Number

/-! # JSON values

Objects keep their members in order of insertion.  The three operations on the members of an
object are `lookup`, `insert`, which keeps the place of a key that is already there, and
`remove`, which moves the last member into the gap. -/

namespace Promptwright

/-- A JSON value. -/
inductive Json
  | null
  | bool (b : Bool)
  | number (n : Json.Number)
  | string (s : String)
  | array (items : List Json)
  | object (members : List (String × Json))

namespace Json

/-- The members of an object, in order. -/
abbrev Members := List (String × Json)

instance : Inhabited Json := ⟨.null⟩

namespace Members

/-- The value of a key. -/
def lookup (ms : Members) (key : String) : Option Json := List.lookup key ms

/-- Whether a key is there. -/
def hasKey (ms : Members) (key : String) : Bool := ms.any fun m => m.1 == key

/-- Sets the value of a key: in its place if the key is there, else at the end. -/
def insert : Members → String → Json → Members
  | [], key, value => [(key, value)]
  | (k, v) :: ms, key, value =>
    if k = key then (k, value) :: ms else (k, v) :: insert ms key value

/-- The members before a key and those after it; `none` if the key is not there. -/
def split? : Members → String → Option (Members × Members)
  | [], _ => none
  | (k, v) :: ms, key =>
    if k = key then some ([], ms) else (split? ms key).map fun (pre, post) => ((k, v) :: pre, post)

/-- Takes a key out.  The last member moves into its place. -/
def remove (ms : Members) (key : String) : Members :=
  match split? ms key with
  | none => ms
  | some (pre, post) =>
    match post.getLast? with
    | none => pre
    | some last => pre ++ last :: post.dropLast

/-- The members that result from inserting pairs one after the other. -/
def ofList (pairs : List (String × Json)) : Members :=
  pairs.foldl (fun ms (k, v) => insert ms k v) []

end Members

/-! ## Views -/

/-- The text of a string value. -/
def string? : Json → Option String
  | .string s => some s
  | _ => none

/-- The value of a key of an object. -/
def get? (j : Json) (key : String) : Option Json :=
  match j with
  | .object ms => Members.lookup ms key
  | _ => none

/-- The kind of a value, with an article. -/
def kind : Json → String
  | .null => "null"
  | .bool _ => "a boolean"
  | .number _ => "a number"
  | .string _ => "a string"
  | .array _ => "a list"
  | .object _ => "an object"

/-- Whether a value is an array or an object. -/
def isComposite : Json → Bool
  | .array _ => true
  | .object _ => true
  | _ => false

/-- An array of strings. -/
def strings (ss : List String) : Json := .array (ss.map .string)

/-- A whole number. -/
def int (n : Int) : Json := .number (.integer n)

/-- A string, or null. -/
def stringOrNull : Option String → Json
  | some s => .string s
  | none => .null

end Json

end Promptwright
