import Mathlib.Data.List.Perm.Basic
import Promptwright.Prompt.Load
import Promptwright.Proofs.Files.Segments

/-!
# Alternatives in braces

The choices between the first braces are put in their place one after the other, and what results is
expanded in turn.  So the choices may stand in any order, in these braces and in those that are left
after them: the same patterns result, in another order.

## Key results

- `expand_braces`, `expand_group`: the first pair of braces
- `Reordered.perm_expandBraces`: choices in another order
- `reordered_flat`: several pairs of braces, none inside another
-/

namespace Promptwright

namespace Text

variable {sep : Char}

/-- Texts with separators between them are cut into these texts. -/
theorem splitAt_intercalate {ws : List (List Char)} (hne : ws ≠ []) (h : ∀ w ∈ ws, sep ∉ w) :
    splitAt sep ([sep].intercalate ws) = ws := by
  induction ws with
  | nil => contradiction
  | cons w ws ih =>
    have hw := splitAt_of_not_mem (h w List.mem_cons_self)
    cases ws with
    | nil => simpa using hw
    | cons w' ws =>
      have ih := ih (List.cons_ne_nil _ _) fun x hx => h x (List.mem_cons_of_mem _ hx)
      rw [List.intercalate_cons_cons, List.append_assoc, List.singleton_append, splitAt_append, hw,
        ih, List.singleton_append]

end Text

namespace Braces

variable {before inside after after' p p' : List Char} {choices choices' : List (List Char)}

/-! ## Expansion -/

/-- The patterns that a pattern stands for, as characters. -/
def expand (cs : List Char) : List (List Char) := expandBracesWith (cs.count '\x7d') cs

/-- Without an opening brace there is nothing to expand. -/
theorem expand_of_not_mem (h : '\x7b' ∉ p) : expand p = [p] := by
  rw [expand]
  cases p.count '\x7d' with
  | zero => rfl
  | succ n => rw [expandBracesWith, Text.cutAt?_eq_none_iff.mpr h]

/-- Neither is there if the first one is not closed. -/
theorem expand_of_unclosed (hbefore : '\x7b' ∉ before) (hinside : '\x7d' ∉ inside) :
    expand (before ++ '\x7b' :: inside) = [before ++ '\x7b' :: inside] := by
  have hopen : Text.cutAt? '\x7b' (before ++ '\x7b' :: inside) = some (before, inside) :=
    Text.cutAt?_eq_some_iff.mpr ⟨rfl, hbefore⟩
  rw [expand]
  cases (before ++ '\x7b' :: inside).count '\x7d' with
  | zero => rfl
  | succ n =>
    rw [expandBracesWith]
    simp only [hopen, Text.cutAt?_eq_none_iff.mpr hinside]

/-- What stands between the commas in the first braces is put in the place of these, and the result
expanded. -/
theorem expand_braces (hbefore : '\x7b' ∉ before) (hinside : '\x7d' ∉ inside) (after : List Char) :
    expand (before ++ '\x7b' :: (inside ++ '\x7d' :: after)) =
      (Text.splitAt ',' inside).flatMap fun c => expand (before ++ c ++ after) := by
  have hcount : (before ++ '\x7b' :: (inside ++ '\x7d' :: after)).count '\x7d' =
      (before ++ after).count '\x7d' + 1 := by
    simp [List.count_append, List.count_eq_zero_of_not_mem hinside]
    omega
  have hopen : Text.cutAt? '\x7b' (before ++ '\x7b' :: (inside ++ '\x7d' :: after)) =
      some (before, inside ++ '\x7d' :: after) :=
    Text.cutAt?_eq_some_iff.mpr ⟨rfl, hbefore⟩
  have hclose : Text.cutAt? '\x7d' (inside ++ '\x7d' :: after) = some (inside, after) :=
    Text.cutAt?_eq_some_iff.mpr ⟨rfl, hinside⟩
  -- the closing brace of the first pair pays for this step
  rw [expand, hcount, expandBracesWith]
  simp only [hopen, hclose]
  refine List.flatMap_congr fun c hc => ?_
  -- a choice has no closing braces, so as many steps are left as are needed
  have hchoice : '\x7d' ∉ c := fun hmem => hinside (Text.mem_of_mem_splitAt hc hmem)
  rw [expand]
  simp [List.count_append, List.count_eq_zero_of_not_mem hchoice]

/-- A pattern with braces around some choices. -/
def group (before : List Char) (choices : List (List Char)) (after : List Char) : List Char :=
  before ++ '\x7b' :: ([','].intercalate choices ++ '\x7d' :: after)

/-- The first braces of a pattern: choices without commas and closing braces, of which there is at
least one, behind a text without opening ones. -/
structure First (before : List Char) (choices : List (List Char)) : Prop where
  before : '\x7b' ∉ before
  nonempty : choices ≠ []
  comma : ∀ c ∈ choices, ',' ∉ c
  closing : ∀ c ∈ choices, '\x7d' ∉ c

/-- The text between the braces holds no closing one. -/
theorem First.closing_not_mem (h : First before choices) : '\x7d' ∉ [','].intercalate choices := by
  obtain ⟨-, -, -, hclosing⟩ := h
  induction choices with
  | nil => exact List.not_mem_nil
  | cons c cs ih =>
    obtain ⟨hc, hcs⟩ := List.forall_mem_cons.mp hclosing
    cases cs with
    | nil => simpa using hc
    | cons c' cs =>
      rw [List.intercalate_cons_cons, List.append_assoc, List.mem_append, List.mem_append, not_or,
        not_or]
      exact ⟨hc, by decide, ih hcs⟩

/-- Every choice is put in the place of the first braces, and the result expanded. -/
theorem expand_group (h : First before choices) (after : List Char) :
    expand (group before choices after) =
      choices.flatMap fun c => expand (before ++ c ++ after) := by
  rw [group, expand_braces h.before h.closing_not_mem,
    Text.splitAt_intercalate h.nonempty h.comma]

/-! ## Choices in another order -/

/-- Patterns that differ in the order of the choices in their braces only. -/
inductive Reordered : List Char → List Char → Prop
  | refl (p : List Char) : Reordered p p
  /-- The choices in the first braces, and in those that are left when one of them is put there. -/
  | group {before after after' : List Char} {choices choices' : List (List Char)}
      (hfirst : First before choices) (hperm : choices'.Perm choices)
      (h : ∀ c ∈ choices, Reordered (before ++ c ++ after) (before ++ c ++ after')) :
      Reordered (group before choices after) (group before choices' after')

/-- Choices in another order are still choices. -/
theorem First.perm (h : First before choices) (hperm : choices'.Perm choices) :
    First before choices' where
  before := h.before
  nonempty hnil := h.nonempty (hnil ▸ hperm).nil_eq.symm
  comma c hc := h.comma c (hperm.subset hc)
  closing c hc := h.closing c (hperm.subset hc)

/-- They give the same patterns, in another order. -/
theorem Reordered.perm_expand (h : Reordered p p') : (expand p).Perm (expand p') := by
  induction h with
  | refl => exact .refl _
  | @group before after after' choices choices' hfirst hperm _ ih =>
    rw [expand_group hfirst, expand_group (hfirst.perm hperm)]
    exact hperm.symm.flatMap ih

/-- So do the texts. -/
theorem Reordered.perm_expandBraces {pattern pattern' : String}
    (h : Reordered pattern.toList pattern'.toList) :
    (expandBraces pattern).Perm (expandBraces pattern') :=
  h.perm_expand.map String.ofList

/-! ## Braces beside each other -/

/-- A text, and several braces with the texts behind them. -/
def flat (t : List Char) : List (List (List Char) × List Char) → List Char
  | [] => t
  | (choices, t') :: gs => group t choices (flat t' gs)

/-- Braces with the same choices, and the same text behind them. -/
structure SameGroup (g g' : List (List Char) × List Char) : Prop where
  choices : g'.1.Perm g.1
  text : g'.2 = g.2
  nonempty : g.1 ≠ []
  plain : ∀ c ∈ g.1, ',' ∉ c ∧ '\x7b' ∉ c ∧ '\x7d' ∉ c
  opening : '\x7b' ∉ g.2

/-- The choices in every one of them may stand in another order. -/
theorem reordered_flat {t : List Char} {gs gs' : List (List (List Char) × List Char)}
    (ht : '\x7b' ∉ t) (h : List.Forall₂ SameGroup gs gs') : Reordered (flat t gs) (flat t gs') := by
  -- on the braces: with a choice in the place of the first ones, the text in front of the others grows
  induction h generalizing t with
  | nil => exact .refl _
  | @cons g g' gs gs' hg _ ih =>
    have hfirst : First t g.1 :=
      ⟨ht, hg.nonempty, fun c hc => (hg.plain c hc).1, fun c hc => (hg.plain c hc).2.2⟩
    have hjoin : ∀ (c : List Char) gs, t ++ c ++ flat g.2 gs = flat (t ++ c ++ g.2) gs := by
      intro c gs
      cases gs with
      | nil => rfl
      | cons g gs => simp [flat, group]
    rw [flat, flat, hg.text]
    refine .group hfirst hg.choices fun c hc => ?_
    rw [hjoin, hjoin]
    refine ih ?_
    simp [ht, (hg.plain c hc).2.1, hg.opening]

end Braces

end Promptwright
