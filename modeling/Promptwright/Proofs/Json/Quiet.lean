import Promptwright.Proofs.Script.Symbols

/-!
# JSON texts hold no keywords

As code, the text of a JSON value is made of numbers, three names, brackets and strings: whatever
its strings say, and in either layout, it declares, exports and imports nothing.

## Key results

- `quiet_compact`, `quiet_pretty`: the two texts of a value
-/

namespace Promptwright.Json

open Script (Quiet)

/-- The text of null. -/
theorem quiet_null : Quiet false true "null" := .code (by decide)

/-- The text of a truth value. -/
theorem quiet_bool (b : Bool) : Quiet false true (if b then "true" else "false") := by
  cases b with
  | true => exact .code (by decide)
  | false => exact .code (by decide)

/-! ## Without white space -/

mutual

/-- The text of a value without white space.  A number or a name may be pending at its end. -/
theorem quiet_compact : (j : Json) → Quiet false true j.compact
  | .null => quiet_null
  | .bool b => quiet_bool b
  | .number n => .number n
  | .string s => (Quiet.quoted s).mayEnd
  | .array items =>
    (((Quiet.code (q := false) (by decide)).append (quiet_compactItems items)).append
      (.code (by decide))).mayEnd
  | .object members =>
    (((Quiet.code (q := false) (by decide)).append (quiet_compactMembers members)).append
      (.code (by decide))).mayEnd
  termination_by structural j => j

/-- Values between commas. -/
theorem quiet_compactItems : (js : List Json) → Quiet false true (compactItems js)
  | [] => Quiet.empty.mayEnd
  | [j] => quiet_compact j
  | j :: k :: js =>
    ((quiet_compact j).append (.code (by decide))).append (quiet_compactItems (k :: js))
  termination_by structural js => js

/-- Keys and values between commas. -/
theorem quiet_compactMembers : (ms : List (String × Json)) → Quiet false true (compactMembers ms)
  | [] => Quiet.empty.mayEnd
  | [(key, j)] => ((Quiet.quoted key).append (.code (by decide))).append (quiet_compact j)
  | (key, j) :: m :: ms =>
    ((((Quiet.quoted key).append (.code (by decide))).append (quiet_compact j)).append
      (.code (by decide))).append (quiet_compactMembers (m :: ms))
  termination_by structural ms => ms

end

/-! ## With one item to a line -/

/-- The start of a line ends the line before it. -/
theorem quiet_newline (depth : Nat) : Quiet true false (newline depth) := by
  have hspaces : ∀ n, Quiet false false (String.ofList (List.replicate n ' ')) := by
    intro n
    induction n with
    | zero => exact .empty
    | succ n ih =>
      rw [List.replicate_succ, ← List.singleton_append, String.ofList_append]
      exact (Quiet.code (by decide)).append ih
  exact (Quiet.code (by decide)).append (hspaces _)

mutual

/-- The text of a value whose items stand on lines of their own. -/
theorem quiet_prettyAt (depth : Nat) : (j : Json) → Quiet false true (prettyAt depth j)
  | .null => quiet_null
  | .bool b => quiet_bool b
  | .number n => .number n
  | .string s => (Quiet.quoted s).mayEnd
  | .array [] => .code (by decide)
  | .array (j :: js) =>
    ((((((Quiet.code (by decide)).append (quiet_newline _)).append
      (quiet_prettyAt (depth + 1) j)).append (quiet_prettyItems (depth + 1) js)).append
      (quiet_newline _)).append (.code (by decide))).mayEnd
  | .object [] => .code (by decide)
  | .object ((key, j) :: ms) =>
    ((((((((Quiet.code (by decide)).append (quiet_newline _)).append (.quoted key)).append
      (.code (by decide))).append (quiet_prettyAt (depth + 1) j)).append
      (quiet_prettyMembers (depth + 1) ms)).append (quiet_newline _)).append
      (.code (by decide))).mayEnd
  termination_by structural j => j

/-- Further items of an array. -/
theorem quiet_prettyItems (depth : Nat) : (js : List Json) → Quiet true true (prettyItems depth js)
  | [] => .empty
  | j :: js =>
    ((((Quiet.code (by decide)).append (quiet_newline depth)).append
      (quiet_prettyAt depth j))).append (quiet_prettyItems depth js)
  termination_by structural js => js

/-- Further members of an object. -/
theorem quiet_prettyMembers (depth : Nat) :
    (ms : List (String × Json)) → Quiet true true (prettyMembers depth ms)
  | [] => .empty
  | (key, j) :: ms =>
    (((((Quiet.code (by decide)).append (quiet_newline depth)).append (.quoted key)).append
      (.code (by decide))).append (quiet_prettyAt depth j)).append (quiet_prettyMembers depth ms)
  termination_by structural ms => ms

end

/-- The text of a value with one item to a line. -/
theorem quiet_pretty (j : Json) : Quiet false true j.pretty := quiet_prettyAt 0 j

end Promptwright.Json
