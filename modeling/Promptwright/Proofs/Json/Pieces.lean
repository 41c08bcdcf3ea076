import Promptwright.Proofs.Script.Pieces

/-!
# JSON texts as pieces of scripts

The text of a JSON value, compact or pretty, may stand inside of a statement of a script: strings
close on their lines, and brackets close in the text itself.

## Key results

- `piece_compact`, `piece_pretty`: the two texts of a value
-/

namespace Promptwright.Json

open Script (Bracket Lexeme Piece)

variable {p : List Bracket}

/-- The text of a truth value. -/
theorem piece_bool (b : Bool) :
    Piece Lexeme.isInner p p (if b then "true" else "false") := by
  cases b with
  | true => exact .word (by decide)
  | false => exact .word (by decide)

/-! ## Without white space -/

mutual

/-- The text of a value without white space. -/
theorem piece_compact : (j : Json) → Piece Lexeme.isInner [] [] j.compact
  | .null => .word (by decide)
  | .bool b => piece_bool b
  | .number n => .word (Script.wordText_number n)
  | .string s => .quoted s
  | .array items =>
    .wrap (p := [.square]) (.code (by decide)) (piece_compactItems items) (.code (by decide))
  | .object members =>
    .wrap (p := [.curly]) (.code (by decide)) (piece_compactMembers members) (.code (by decide))
  termination_by structural j => j

/-- Values between commas. -/
theorem piece_compactItems : (js : List Json) → Piece Lexeme.isInner [] [] (compactItems js)
  | [] => .empty
  | [j] => piece_compact j
  | j :: k :: js =>
    ((piece_compact j).beside (.code (by decide))).beside (piece_compactItems (k :: js))
  termination_by structural js => js

/-- Keys and values between commas. -/
theorem piece_compactMembers :
    (ms : List (String × Json)) → Piece Lexeme.isInner [] [] (compactMembers ms)
  | [] => .empty
  | [(key, j)] => ((Piece.quoted key).beside (.code (by decide))).beside (piece_compact j)
  | (key, j) :: m :: ms =>
    ((((Piece.quoted key).beside (.code (by decide))).beside (piece_compact j)).beside
      (.code (by decide))).beside (piece_compactMembers (m :: ms))
  termination_by structural ms => ms

end

/-! ## With one item to a line -/

/-- The start of a line. -/
theorem piece_newline (depth : Nat) : Piece Lexeme.isInner p p (newline depth) :=
  .append (q := p) (.neutral (by decide)) (.spaces _)

mutual

/-- The text of a value whose items stand on lines of their own. -/
theorem piece_prettyAt (depth : Nat) : (j : Json) → Piece Lexeme.isInner [] [] (prettyAt depth j)
  | .null => .word (t := "null") (by decide)
  | .bool b => piece_bool b
  | .number n => .word (Script.wordText_number n)
  | .string s => .quoted s
  | .array [] => .code (by decide)
  | .array (j :: js) =>
    -- the first item shows which bracket is open
    (((((Piece.code (by decide)).append (piece_newline _)).append
      ((piece_prettyAt (depth + 1) j).inside [.square])).append
      ((piece_prettyItems (depth + 1) js).inside _)).append (piece_newline _)).append
      (.code (by decide))
  | .object [] => .code (by decide)
  | .object ((key, j) :: ms) =>
    (((((((Piece.code (by decide)).append (piece_newline _)).append (.quoted key)).append
      (.neutral (by decide))).append ((piece_prettyAt (depth + 1) j).inside [.curly])).append
      ((piece_prettyMembers (depth + 1) ms).inside _)).append (piece_newline _)).append
      (.code (by decide))
  termination_by structural j => j

/-- Further items of an array. -/
theorem piece_prettyItems (depth : Nat) :
    (js : List Json) → Piece Lexeme.isInner [] [] (prettyItems depth js)
  | [] => .empty
  | j :: js =>
    (((Piece.code (by decide)).beside (piece_newline depth)).beside (piece_prettyAt depth j)).beside
      (piece_prettyItems depth js)
  termination_by structural js => js

/-- Further members of an object. -/
theorem piece_prettyMembers (depth : Nat) :
    (ms : List (String × Json)) → Piece Lexeme.isInner [] [] (prettyMembers depth ms)
  | [] => .empty
  | (key, j) :: ms =>
    (((((Piece.code (by decide)).beside (piece_newline depth)).beside (.quoted key)).beside
      (.code (by decide))).beside (piece_prettyAt depth j)).beside (piece_prettyMembers depth ms)
  termination_by structural ms => ms

end

/-- The text of a value with one item to a line. -/
theorem piece_pretty (j : Json) : Piece Lexeme.isInner [] [] j.pretty := piece_prettyAt 0 j

end Promptwright.Json
