import Promptwright.Proofs.Script.Balance

/-!
# Scripts that formatting accepts

Formatting refuses a script for two reasons only: something in it is not closed, or its brackets do
not match.  Both can be told from the lexemes of the whole script.  `turn` follows the brackets
through the lexemes, as `follow` follows them through the marks, but does not keep their lines.

## Key results

- `foldlM_follow_turn`: on lexemes, `turn` does what `follow` does on their marks
- `exists_format_eq_ok`: a script is accepted if all in it is closed and its brackets match
-/

namespace Promptwright.Script

/-- The open brackets, the innermost first, after a lexeme. -/
def turn (stack : List Bracket) : Lexeme → Option (List Bracket)
  | .code c =>
    match codeToken c, stack with
    | .opening b, stack => some (b :: stack)
    | .closing _, [] => none
    | .closing b, o :: stack => if o = b then some stack else none
    | _, stack => some stack
  | _ => some stack

/-- Whether a lexeme is closed, and is no part of a template literal. -/
def Lexeme.isPlain : Lexeme → Bool
  | .template _ => false
  | .unclosed _ => false
  | _ => true

/-- A comment or a template literal opens no bracket. -/
theorem foldlM_turn_map {f : Char → Lexeme} (hf : ∀ stack c, turn stack (f c) = some stack)
    (text : List Char) (stack : List Bracket) : (text.map f).foldlM turn stack = some stack := by
  induction text with
  | nil => rfl
  | cons c text ih =>
    rw [List.map_cons, List.foldlM_cons, hf]
    exact ih

/-- On a lexeme, `turn` does what `follow` does on its mark. -/
theorem follow_turn {x : Lexeme} (hplain : x.isPlain = true) (line : Nat) (stack : List Open) :
    ((x.mark? line).toList.foldlM follow stack).toOption.map (List.map Open.bracket) =
      turn (stack.map Open.bracket) x := by
  -- only the brackets of the code matter, and a closing one needs the innermost one to match
  cases x with
  | code c =>
    cases hc : codeToken c with
    | opening b => simp [Lexeme.mark?, turn, hc, follow, Except.toOption]
    | closing b =>
      cases stack with
      | nil => simp [Lexeme.mark?, turn, hc, follow, Except.toOption]
      | cons o stack =>
        by_cases ho : o.bracket = b <;> simp [Lexeme.mark?, turn, hc, follow, Except.toOption, ho]
    | _ =>
      simp only [Lexeme.mark?, turn, hc]
      rfl
  | unclosed text => cases hplain
  | template c => cases hplain
  | _ => rfl

/-- On lexemes, `turn` does what `follow` does on their marks. -/
theorem foldlM_follow_turn {xs : List Lexeme} (hplain : ∀ x ∈ xs, x.isPlain = true) (line : Nat)
    (stack : List Open) :
    ((marksFrom line xs).foldlM follow stack).toOption.map (List.map Open.bracket) =
      xs.foldlM turn (stack.map Open.bracket) := by
  induction xs generalizing line stack with
  | nil => rfl
  | cons x xs ih =>
    obtain ⟨hx, hxs⟩ := List.forall_mem_cons.mp hplain
    rw [List.foldlM_cons, ← follow_turn hx line]
    by_cases hend : x = .lineEnd
    · subst hend
      exact ih hxs (line + 1) stack
    rw [marksFrom, List.foldlM_append]
    · cases (x.mark? line).toList.foldlM follow stack with
      | error e => rfl
      | ok s => exact ih hxs line s
    · exact hend

/-- A script is accepted if all in it is closed, it has no template literals, and its brackets
match. -/
theorem exists_format_eq_ok {script : String}
    (hplain : ∀ x ∈ lexemes script, x.isPlain = true)
    (hturn : (lexemes script).foldlM turn [] = some []) (width : Nat) :
    ∃ target, format width script = .ok target := by
  refine exists_format_eq_ok_iff.mpr ⟨fun text h => ?_, balanced_iff_follow.mpr ?_⟩
  · cases hplain _ h
  · have hfollow := foldlM_follow_turn hplain 1 []
    rw [List.map_nil, hturn] at hfollow
    cases hmarks : (marksFrom 1 (lexemes script)).foldlM follow [] with
    | error e =>
      rw [hmarks] at hfollow
      cases hfollow
    | ok stack =>
      rw [hmarks] at hfollow
      rw [marks, hmarks, List.map_eq_nil_iff.mp (Option.some.inj hfollow)]

end Promptwright.Script
