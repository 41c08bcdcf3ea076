import Promptwright.Json.Value

/-! # Equality of values up to notation

Two values are the same when they are equal apart from the order of the members of objects and
from how numbers are written: `1` and `1.0` are the same number. -/

namespace Promptwright.Json

/-- Whether two numbers are the same: exactly if both are whole and fit into 64 bits with a sign,
else as floating numbers. -/
def Number.same (x y : Number) : Bool :=
  match x.toSigned?, y.toSigned? with
  | some m, some n => m == n
  | _, _ => x.toBinary64.same y.toBinary64

mutual

/-- Whether two values are the same. -/
def same : Json → Json → Bool
  | .null, .null => true
  | .bool a, .bool b => a == b
  | .number x, .number y => x.same y
  | .string s, .string t => s == t
  | .array xs, .array ys => sameItems xs ys
  | .object ms, .object ns => ms.length == ns.length && sameMembers ms ns
  | _, _ => false
  termination_by structural a => a

/-- Whether two lists have the same items in the same order. -/
def sameItems : List Json → List Json → Bool
  | [], [] => true
  | x :: xs, y :: ys => same x y && sameItems xs ys
  | _, _ => false
  termination_by structural xs => xs

/-- Whether every member of the first list has the same value in the second. -/
def sameMembers : List (String × Json) → Members → Bool
  | [], _ => true
  | (k, x) :: ms, ns =>
    (match Members.lookup ns k with
      | some y => same x y
      | none => false) && sameMembers ms ns
  termination_by structural ms => ms

end

end Promptwright.Json
