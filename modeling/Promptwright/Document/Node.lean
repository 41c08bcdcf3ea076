import Promptwright.Json.Value

/-! # Documents as trees

YAML and JSON texts are both read into one kind of tree, `Node`.  The tree holds what the text
says as far as it can be read: where the text stops making sense there is a `fault`, and
whoever walks over the tree from left to right meets it after everything that stands before it.

A JSON value has its meaning on its own, and so is an `Atom`.  A YAML scalar is kept as it is
written, since its meaning depends on what is asked for: `007` is a text where a text is
wanted, and no number where a whole number is wanted. -/

namespace Promptwright

/-- A value without parts. -/
inductive Atom
  | null
  | bool (b : Bool)
  | integer (n : Int)
  /-- A whole number that needs more than 64 bits. -/
  | wide (n : Int)
  | float (x : Binary64)
  | string (s : String)
deriving DecidableEq, Repr

/-- How a YAML scalar is written. -/
inductive ScalarStyle
  | plain
  | singleQuoted
  | doubleQuoted
  | literal
  | folded
deriving DecidableEq, Repr

/-- A YAML scalar as written: its text without quotes and folding, and its tag. -/
structure Scalar where
  text : String
  style : ScalarStyle
  tag : Option String
deriving DecidableEq, Repr

/-- A document, or a part of one.  `tagged` marks containers with a tag of the document's own,
such as `!point`. -/
inductive Node
  /-- There is no content at all. -/
  | absent
  /-- From here on the text cannot be read. -/
  | fault
  | atom (a : Atom)
  | scalar (s : Scalar)
  | sequence (tagged : Bool) (items : List Node)
  | mapping (tagged : Bool) (entries : List (Node × Node))

instance : Inhabited Node := ⟨.absent⟩

/-- A whole text: its first document, and whether the text ends with it. -/
structure Document where
  root : Node
  complete : Bool

namespace Node

mutual

/-- The tree of a JSON value. -/
def ofJson : Json → Node
  | .null => .atom .null
  | .bool b => .atom (.bool b)
  | .number (.integer n) => .atom (.integer n)
  | .number (.float x) => .atom (.float x)
  | .string s => .atom (.string s)
  | .array items => .sequence false (ofItems items)
  | .object members => .mapping false (ofMembers members)
  termination_by structural j => j

/-- The trees of the items of an array. -/
def ofItems : List Json → List Node
  | [] => []
  | j :: js => ofJson j :: ofItems js
  termination_by structural js => js

/-- The trees of the members of an object. -/
def ofMembers : List (String × Json) → List (Node × Node)
  | [] => []
  | (k, j) :: ms => (.atom (.string k), ofJson j) :: ofMembers ms
  termination_by structural ms => ms

end

end Node

end Promptwright
