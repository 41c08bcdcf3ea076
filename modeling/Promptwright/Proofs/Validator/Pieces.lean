import Promptwright.Proofs.Json.Pieces
import Promptwright.Validator.Text

/-!
# The text of validators as a piece of a script

Whatever a validator describes, its text may stand inside of a statement of a script.  In
particular, no text of a schema ends a literal or a comment early, and no bracket is left open.

## Key results

- `piece_source`: the text of a validator
-/

namespace Promptwright.Validator

open Script (Bracket Lexeme Piece)

variable {p : List Bracket}

/-! ## Methods -/

/-- A call of a method with a number. -/
theorem piece_call {method : String} (h : Script.WordText method) (n : Json.Number) :
    Piece Lexeme.isInner [] [] (call method n) :=
  ((((Piece.word (t := ".") (by decide)).append (.word h)).append (.code (by decide))).append
    (.word (p := [.round]) (Script.wordText_number n))).append (.code (by decide))

/-- A condition on a text. -/
theorem piece_textCheck (c : TextCheck) : Piece Lexeme.isInner [] [] c.text := by
  cases c with
  | minLength n => exact piece_call (by decide) n
  | maxLength n => exact piece_call (by decide) n
  | pattern regex =>
    exact .wrap (p := [.round, .round]) (.code (by decide)) (.quote regex) (.code (by decide))
  | format f => cases f <;> exact .code (by decide)

/-- A condition on a number. -/
theorem piece_numberCheck (c : NumberCheck) : Piece Lexeme.isInner [] [] c.text := by
  have hmethod : Script.WordText c.relation.method := by cases c.relation <;> decide
  exact piece_call hmethod c.bound

/-- A condition on the number of items of a list. -/
theorem piece_sizeCheck (c : SizeCheck) : Piece Lexeme.isInner [] [] c.text := by
  cases c with
  | min n => exact piece_call (by decide) n
  | max n => exact piece_call (by decide) n

/-- The same condition on a tuple. -/
theorem piece_tupleCheck (c : SizeCheck) : Piece Lexeme.isInner [] [] c.tupleText := by
  cases c with
  | min n =>
    exact .wrap (p := [.round]) (.code (by decide)) (.word (Script.wordText_number n))
      (.code (by decide))
  | max n =>
    exact .wrap (p := [.round]) (.code (by decide)) (.word (Script.wordText_number n))
      (.code (by decide))

/-- Conditions one after the other. -/
theorem piece_concat {α : Type} {text : α → String}
    (h : ∀ c, Piece Lexeme.isInner [] [] (text c)) (cs : List α) :
    Piece Lexeme.isInner [] [] (concat (cs.map text)) := by
  refine .foldr fun t ht => ?_
  obtain ⟨c, -, rfl⟩ := List.mem_map.mp ht
  exact h c

/-! ## Validators -/

/-- The comment on a gap. -/
theorem piece_comment (g : Gap) : Piece Lexeme.isInner p p g.comment := by
  obtain ⟨b, hb, hg⟩ := Script.exists_comment_eq g
  rw [hg]
  exact .comment hb

/-- The mark of a property that may be missing. -/
theorem piece_optionalText (required : Bool) :
    Piece Lexeme.isInner [] [] (optionalText required) := by
  cases required with
  | true => exact .empty
  | false => exact .code (by decide)

mutual

/-- The text of a validator. -/
theorem piece_source : (v : Validator) → Piece Lexeme.isInner [] [] v.source
  | .any => .code (by decide)
  | .never => .code (by decide)
  | .unknown gap => (piece_comment gap).beside (.code (by decide))
  | .text checks => .beside (.code (by decide)) (piece_concat piece_textCheck checks)
  | .number true checks => .beside (.code (by decide)) (piece_concat piece_numberCheck checks)
  | .number false checks => .beside (.code (by decide)) (piece_concat piece_numberCheck checks)
  | .boolean => .code (by decide)
  | .null => .code (by decide)
  -- the brackets around a part are closed behind it
  | .literal value =>
    .wrap (p := [.round]) (.code (by decide)) (Json.piece_compact value) (.code (by decide))
  | .choice values => by
    refine .wrap (p := [.square, .round]) (.code (by decide)) ?_ (.code (by decide))
    refine .intercalate (.code (by decide)) fun t ht => ?_
    obtain ⟨s, -, rfl⟩ := List.mem_map.mp ht
    exact .quoted s
  | .union members =>
    .wrap (p := [.square, .round]) (.code (by decide)) (piece_itemsSource members)
      (.code (by decide))
  | .intersection left right =>
    ((((Piece.code (by decide)).append ((piece_source left).inside [.round])).append
      (.code (by decide))).append ((piece_source right).inside [.round])).append
      (.code (by decide))
  | .array item checks =>
    (Piece.wrap (p := [.round]) (.code (by decide)) (piece_source item) (.code (by decide))).beside
      (piece_concat piece_sizeCheck checks)
  | .tuple items checks =>
    (Piece.wrap (p := [.square, .round]) (.code (by decide)) (piece_itemsSource items)
      (.code (by decide))).beside (piece_concat piece_tupleCheck checks)
  | .object [] rest => .beside (.code (by decide)) (piece_restSource rest)
  | .object (p :: ps) rest =>
    (Piece.wrap (p := [.curly, .round]) (.code (by decide)) (piece_propertiesSource (p :: ps))
      (.code (by decide))).beside (piece_restSource rest)
  | .nullable v => (piece_source v).beside (.code (by decide))
  | .described v description =>
    (((piece_source v).append (.code (by decide))).append
      (.quote (p := [.round]) description)).append (.code (by decide))
  termination_by structural v => v

/-- Validators between commas. -/
theorem piece_itemsSource : (vs : List Validator) → Piece Lexeme.isInner [] [] (itemsSource vs)
  | [] => .empty
  | [v] => piece_source v
  | v :: w :: vs =>
    ((piece_source v).beside (.code (by decide))).beside (piece_itemsSource (w :: vs))
  termination_by structural vs => vs

/-- Properties on lines of their own. -/
theorem piece_propertiesSource :
    (ps : List (Property Validator)) → Piece Lexeme.isInner [] [] (propertiesSource ps)
  | [] => .empty
  | [⟨name, required, v⟩] =>
    (((Piece.quote name).beside (.code (by decide))).beside (piece_source v)).beside
      (piece_optionalText required)
  | ⟨name, required, v⟩ :: q :: ps =>
    (((((Piece.quote name).beside (.code (by decide))).beside (piece_source v)).beside
      (piece_optionalText required)).beside (.code (by decide))).beside
      (piece_propertiesSource (q :: ps))
  termination_by structural ps => ps

/-- What else an object may hold. -/
theorem piece_restSource : (r : Rest Validator) → Piece Lexeme.isInner [] [] (restSource r)
  | .free => .empty
  | .nothing => .code (by decide)
  | .each v => .wrap (p := [.round]) (.code (by decide)) (piece_source v) (.code (by decide))
  termination_by structural r => r

end

end Promptwright.Validator
