import Promptwright.Proofs.Json.Quiet
import Promptwright.Validator.Text

/-!
# The text of validators holds no keywords

As code, a validator is made of calls of the library, numbers and strings: no text of a schema and
no combination of checks makes it declare, export or import anything.

## Key results

- `quiet_source`: the text of a validator
-/

namespace Promptwright.Validator

open Script (Quiet)

/-! ## Methods -/

/-- A call of a method with a number. -/
theorem quiet_call {method : String} (h : Quiet false true method) (n : Json.Number) :
    Quiet false false (call method n) :=
  ((((Quiet.code (by decide)).append h).append (.code (by decide))).append (.number n)).append
    (.code (by decide))

/-- A condition on a text. -/
theorem quiet_textCheck (c : TextCheck) : Quiet false false c.text := by
  cases c with
  | minLength n => exact quiet_call (.code (by decide)) n
  | maxLength n => exact quiet_call (.code (by decide)) n
  | pattern regex =>
    exact ((Quiet.code (by decide)).append (.quote (p := false) regex)).append (.code (by decide))
  | format f => cases f <;> exact .code (by decide)

/-- A condition on a number. -/
theorem quiet_numberCheck (c : NumberCheck) : Quiet false false c.text := by
  have hmethod : Quiet false true c.relation.method := by
    cases c.relation <;> exact .code (by decide)
  exact quiet_call hmethod c.bound

/-- A condition on the number of items of a list. -/
theorem quiet_sizeCheck (c : SizeCheck) : Quiet false false c.text := by
  cases c with
  | min n => exact quiet_call (.code (by decide)) n
  | max n => exact quiet_call (.code (by decide)) n

/-- The same condition on a tuple. -/
theorem quiet_tupleCheck (c : SizeCheck) : Quiet false false c.tupleText := by
  cases c with
  | min n => exact ((Quiet.code (by decide)).append (.number n)).append (.code (by decide))
  | max n => exact ((Quiet.code (by decide)).append (.number n)).append (.code (by decide))

/-- Conditions one after the other. -/
theorem quiet_concat {α : Type} {text : α → String} (h : ∀ c, Quiet false false (text c))
    (cs : List α) : Quiet false false (concat (cs.map text)) := by
  apply Quiet.foldr
  intro t ht
  obtain ⟨c, -, rfl⟩ := List.mem_map.mp ht
  exact h c

/-! ## Validators -/

/-- The comment on a gap. -/
theorem quiet_comment (g : Gap) : Quiet false false g.comment := by
  obtain ⟨b, hb, hg⟩ := Script.exists_comment_eq g
  rw [hg]
  exact .comment hb

/-- The mark of a property that may be missing. -/
theorem quiet_optionalText (required : Bool) : Quiet false false (optionalText required) := by
  cases required with
  | true => exact .empty
  | false => exact .code (by decide)

mutual

/-- The text of a validator. -/
theorem quiet_source : (v : Validator) → Quiet false false v.source
  | .any => .code (by decide)
  | .never => .code (by decide)
  | .unknown gap => (quiet_comment gap).append (.code (by decide))
  | .text checks => (Quiet.code (by decide)).append (quiet_concat quiet_textCheck checks)
  | .number true checks => (Quiet.code (by decide)).append (quiet_concat quiet_numberCheck checks)
  | .number false checks => (Quiet.code (by decide)).append (quiet_concat quiet_numberCheck checks)
  | .boolean => .code (by decide)
  | .null => .code (by decide)
  | .literal value =>
    ((Quiet.code (by decide)).append (Json.quiet_compact value)).append (.code (by decide))
  | .choice values => by
    have hvalues : Quiet false false (", ".intercalate (values.map Json.quoted)) := by
      apply Quiet.intercalate (.code (by decide))
      intro t ht
      obtain ⟨s, -, rfl⟩ := List.mem_map.mp ht
      exact .quoted s
    exact ((Quiet.code (by decide)).append hvalues).append (.code (by decide))
  | .union members =>
    ((Quiet.code (by decide)).append (quiet_itemsSource members)).append (.code (by decide))
  | .intersection left right =>
    ((((Quiet.code (by decide)).append (quiet_source left)).append (.code (by decide))).append
      (quiet_source right)).append (.code (by decide))
  | .array item checks =>
    (((Quiet.code (by decide)).append (quiet_source item)).append (.code (by decide))).append
      (quiet_concat quiet_sizeCheck checks)
  | .tuple items checks =>
    (((Quiet.code (by decide)).append (quiet_itemsSource items)).append (.code (by decide))).append
      (quiet_concat quiet_tupleCheck checks)
  | .object [] rest => (Quiet.code (by decide)).append (quiet_restSource rest)
  | .object (p :: ps) rest =>
    (((Quiet.code (by decide)).append (quiet_propertiesSource (p :: ps))).append
      (.code (by decide))).append (quiet_restSource rest)
  | .nullable v => (quiet_source v).append (.code (by decide))
  | .described v description =>
    (((quiet_source v).append (.code (by decide))).append (.quote (p := false) description)).append
      (.code (by decide))
  termination_by structural v => v

/-- Validators between commas. -/
theorem quiet_itemsSource : (vs : List Validator) → Quiet false false (itemsSource vs)
  | [] => .empty
  | [v] => quiet_source v
  | v :: w :: vs =>
    ((quiet_source v).append (.code (by decide))).append (quiet_itemsSource (w :: vs))
  termination_by structural vs => vs

/-- Properties on lines of their own. -/
theorem quiet_propertiesSource :
    (ps : List (Property Validator)) → Quiet false false (propertiesSource ps)
  | [] => .empty
  | [⟨name, required, v⟩] =>
    (((Quiet.quote name).append (.code (by decide))).append (quiet_source v)).append
      (quiet_optionalText required)
  | ⟨name, required, v⟩ :: q :: ps =>
    (((((Quiet.quote name).append (.code (by decide))).append (quiet_source v)).append
      (quiet_optionalText required)).append (.code (by decide))).append
      (quiet_propertiesSource (q :: ps))
  termination_by structural ps => ps

/-- What else an object may hold. -/
theorem quiet_restSource : (r : Rest Validator) → Quiet false false (restSource r)
  | .free => .empty
  | .nothing => .code (by decide)
  | .each v => ((Quiet.code (by decide)).append (quiet_source v)).append (.code (by decide))
  termination_by structural r => r

end

end Promptwright.Validator
