import Mathlib.Data.Set.Card
import Promptwright.Proofs.Script.Balance

/-!
# Lines with open brackets

How far a line is indented is told by the open brackets in front of it: by how many lines they stand
on.  `StillOpen` says which brackets these are, and `levels` counts their lines.  `depth` counts
neighbours on a stack instead, and comes to the same since lines only grow towards its top.

## Key results

- `stillOpen_iff`: the brackets that are still open are those on the stack
- `sorted_formatLines`: lines grow towards the top of the stack
- `levels_eq_depth`: the lines that hold open brackets are counted right
- `foldlM_follow_leadingMarks`: the closing brackets that a line starts with
- `formatLines_linesLexemes_stack`: the marks of lines, against what is open behind them
-/

namespace Promptwright.Script

variable {ms : List Mark} {m : Mark} {o : Open} {stack stack' : List Open}

/-! ## Brackets that are still open -/

/-- A bracket that is still open behind some marks: what closes behind it has been opened behind
it. -/
def StillOpen (ms : List Mark) (o : Open) : Prop :=
  ∃ us vs, ms = us ++ .opening o :: vs ∧ Orderly vs

/-- The number of lines that hold a bracket that is still open. -/
noncomputable def levels (ms : List Mark) : Nat := {n | ∃ o, StillOpen ms o ∧ o.line = n}.ncard

/-- Brackets below those that a mark is about stay as they are. -/
theorem follow_append (h : follow stack m = .ok stack') (below : List Open) :
    follow (stack ++ below) m = .ok (stack' ++ below) := by
  cases m with
  | opening o => cases h; rfl
  | unclosed line => cases h
  | closing b line =>
    cases stack with
    | nil => cases h
    | cons o stack =>
      simp only [follow, List.cons_append] at h ⊢
      split at h
      · next hb =>
        cases h
        rw [if_pos hb]
      · cases h

/-- Brackets below those that marks are about stay as they are. -/
theorem foldlM_follow_append (h : ms.foldlM follow stack = .ok stack') (below : List Open) :
    ms.foldlM follow (stack ++ below) = .ok (stack' ++ below) := by
  induction ms generalizing stack with
  | nil => cases h; rfl
  | cons m ms ih =>
    rw [List.foldlM_cons] at h ⊢
    obtain ⟨stack'', hm, h⟩ := bind_eq_ok h
    rw [bind_of_eq_ok (follow_append hm below)]
    exact ih h

/-- The brackets that are still open are those on the stack. -/
theorem stillOpen_iff (h : ms.foldlM follow [] = .ok stack) : StillOpen ms o ↔ o ∈ stack := by
  constructor
  · rintro ⟨us, vs, rfl, hvs⟩
    obtain ⟨below, -, h⟩ := foldlM_append_eq_ok h
    obtain ⟨above, habove⟩ := orderly_iff.mp hvs
    -- what follows the bracket leaves it where it is
    have hstack := foldlM_follow_append habove (o :: below)
    rw [List.foldlM_cons] at h
    rw [← Except.ok.inj (hstack.symm.trans h)]
    exact List.mem_append_right _ List.mem_cons_self
  · intro ho
    have hopen := leavesOpen_of_follow h
    clear h
    induction hopen with
    | balanced => cases ho
    | @opening us vs stack o' _ hvs ih =>
      obtain rfl | ho := List.mem_cons.mp ho
      · exact ⟨us, vs, rfl, orderly_iff.mpr ⟨[], hvs.follow []⟩⟩
      · obtain ⟨us', vs', rfl, hvs'⟩ := ih ho
        obtain ⟨above, habove⟩ := orderly_iff.mp hvs'
        refine ⟨us', vs' ++ .opening o' :: vs, by simp, orderly_iff.mpr ⟨o' :: above, ?_⟩⟩
        rw [List.foldlM_append, bind_of_eq_ok habove, List.foldlM_cons]
        exact hvs.follow (o' :: above)

/-! ## Lines on the stack -/

/-- Lines grow towards the top of the stack, and none of them is behind a given line. -/
structure Sorted (line : Nat) (stack : List Open) : Prop where
  grow : stack.Pairwise fun o p => p.line ≤ o.line
  le : ∀ o ∈ stack, o.line ≤ line

/-- The stack is sorted for later lines, too. -/
theorem Sorted.mono {line line' : Nat} (h : Sorted line stack) (hle : line ≤ line') :
    Sorted line' stack :=
  ⟨h.grow, fun o ho => (h.le o ho).trans hle⟩

/-- Brackets that are left when some have been closed. -/
theorem Sorted.drop {line : Nat} (h : Sorted line stack) (k : Nat) : Sorted line (stack.drop k) :=
  ⟨h.grow.sublist (List.drop_sublist k stack), fun o ho => h.le o (List.mem_of_mem_drop ho)⟩

/-- One token. -/
theorem sorted_step {line : Nat} {t : Token} (h : Sorted line stack)
    (ht : step line stack t = .ok stack') : Sorted line stack' := by
  obtain ⟨b, rfl⟩ | ⟨o, rfl⟩ | rfl := step_eq_ok ht
  · exact ⟨h.grow.cons h.le, List.forall_mem_cons.mpr ⟨Nat.le_refl line, h.le⟩⟩
  · exact h.drop 1
  · exact h

/-- The tokens of a line. -/
theorem sorted_nest {line : Nat} {ts : List Token} (h : Sorted line stack)
    (hts : nest line stack ts = .ok stack') : Sorted line stack' := by
  induction ts generalizing stack with
  | nil => cases hts; exact h
  | cons t ts ih =>
    rw [nest, List.foldlM_cons] at hts
    obtain ⟨stack'', ht, hts⟩ := bind_eq_ok hts
    exact ih (sorted_step h ht) hts

/-- Lines grow towards the top of the stack wherever formatting gets to. -/
theorem sorted_formatLines {width number : Nat} {l : Layout} {raws : List (List Char)}
    {r : List (List Char) × Layout × Nat} (h : Sorted number l.stack)
    (hr : formatLines width number l raws = .ok r) : Sorted (number + raws.length) r.2.1.stack := by
  induction raws generalizing number l r with
  | nil => cases hr; exact h
  | cons raw raws ih =>
    obtain ⟨written, l', more, hline, hmore, rfl⟩ := formatLines_cons_eq_ok hr
    have hstack := formatLine_stack width number l raw
    rw [hline] at hstack
    have hsorted := ih ((sorted_nest h hstack.symm).mono (Nat.le_succ number)) hmore
    rwa [List.length_cons, show number + (raws.length + 1) = number + 1 + raws.length by omega]

/-- Where lines grow, neighbours tell how many lines there are. -/
theorem ncard_lines_eq_depth (h : stack.Pairwise fun o p => p.line ≤ o.line) :
    {n | ∃ o ∈ stack, o.line = n}.ncard = depth stack := by
  have hset : ∀ stack : List Open,
      {n | ∃ o ∈ stack, o.line = n} = ((stack.map Open.line).toFinset : Set Nat) := by
    intro stack
    ext n
    simp
  rw [hset, Set.ncard_coe_finset]
  induction stack with
  | nil => rfl
  | cons o stack ih =>
    obtain ⟨hle, hrest⟩ := List.pairwise_cons.mp h
    have ih := ih hrest
    cases stack with
    | nil => rfl
    | cons p stack =>
      rw [List.map_cons, List.toFinset_cons, depth, ← ih]
      -- the line on top is new unless it is the next one: all others are further down
      by_cases hop : o.line = p.line
      · have hmem : o.line ∈ ((p :: stack).map Open.line).toFinset :=
          List.mem_toFinset.mpr (hop ▸ List.mem_cons_self)
        rw [if_pos hop, Finset.insert_eq_of_mem hmem, Nat.add_zero]
      · rw [if_neg hop, Finset.card_insert_of_notMem]
        rw [List.mem_toFinset, List.mem_map]
        rintro ⟨q, hq, hline⟩
        have hpo := hle p List.mem_cons_self
        have hqp : q.line ≤ p.line := by
          obtain rfl | hq := List.mem_cons.mp hq
          · exact Nat.le_refl _
          · exact (List.pairwise_cons.mp hrest).1 q hq
        omega

/-- The lines that hold open brackets are counted by the depth of the stack. -/
theorem levels_eq_depth {line : Nat} (h : ms.foldlM follow [] = .ok stack)
    (hsorted : Sorted line stack) : levels ms = depth stack := by
  rw [← ncard_lines_eq_depth hsorted.grow, levels]
  simp only [stillOpen_iff h]

/-! ## Closing brackets in front of a line -/

/-- The closing brackets that a line starts with.  White space may stand around them. -/
def leadingMarks (line : Nat) (text : List Char) : List Mark :=
  (text.takeWhile fun c => Text.isBlank c || (Bracket.ofClosing? c).isSome).filterMap fun c =>
    (Bracket.ofClosing? c).map (.closing · line)

example : leadingMarks 4 "  ) \x7d, [])".toList = [.closing .round 4, .closing .curly 4] := by
  decide

/-- White space is passed over. -/
theorem leadingMarks_blank {c : Char} (hc : Text.isBlank c = true) (line : Nat)
    (text : List Char) : leadingMarks line (c :: text) = leadingMarks line text := by
  have hclosing : Bracket.ofClosing? c = none := by
    rw [Bracket.ofClosing?, if_neg (ne_of_isBlank hc (by decide)),
      if_neg (ne_of_isBlank hc (by decide)), if_neg (ne_of_isBlank hc (by decide))]
  rw [leadingMarks, List.takeWhile_cons_of_pos (by rw [hc]; rfl), List.filterMap_cons_none]
  · rfl
  · rw [hclosing]
    rfl

/-- Closing brackets are taken as they come. -/
theorem leadingMarks_closing (b : Bracket) (line : Nat) (text : List Char) :
    leadingMarks line (b.closing :: text) = .closing b line :: leadingMarks line text := by
  have hclosing : Bracket.ofClosing? b.closing = some b := by cases b <;> decide
  rw [leadingMarks, List.takeWhile_cons_of_pos (by rw [hclosing]; simp), List.filterMap_cons_some]
  · rfl
  · rw [hclosing]
    rfl

/-- Anything else ends them. -/
theorem leadingMarks_other {c : Char} (hc : Text.isBlank c = false)
    (hclosing : Bracket.ofClosing? c = none) (line : Nat) (text : List Char) :
    leadingMarks line (c :: text) = [] := by
  rw [leadingMarks, List.takeWhile_cons_of_neg (by simp [hc, hclosing])]
  rfl

/-- A line that starts with something else starts with no closing bracket. -/
theorem leadingClosers_eq_zero {ts : List Token} {c : Char} {text : List Char}
    (hc : Text.isBlank c = false) (hclosing : Bracket.ofClosing? c = none)
    (hts : ts.flatMap Token.text = c :: text) : leadingClosers ts = 0 := by
  cases ts with
  | nil => rfl
  | cons t ts =>
    cases t with
    | closing b =>
      obtain ⟨rfl, -⟩ := List.cons.inj hts
      cases b <;> cases hclosing
    | char d =>
      obtain ⟨rfl, -⟩ := List.cons.inj hts
      simp [leadingClosers, hc]
    | _ => rfl

/-- The closing brackets that a line of code starts with, against its tokens. -/
theorem foldlM_follow_leadingMarks {line : Nat} {text : List Char}
    (h : nest line stack (lex .code text).1 = .ok stack') :
    (leadingMarks line text).foldlM follow stack =
      .ok (stack.drop (leadingClosers (lex .code text).1)) := by
  induction text generalizing stack with
  | nil => rfl
  | cons c text ih =>
    by_cases hblank : Text.isBlank c = true
    · have hlex : lex .code (c :: text) = push (.char c) (lex .code text) := by
        rw [lex_code_cons (plainCode_of_isBlank hblank text), codeToken_of_isBlank hblank]
      rw [hlex] at h ⊢
      rw [leadingMarks_blank hblank, push, leadingClosers, if_pos hblank]
      exact ih h
    rw [Bool.not_eq_true] at hblank
    cases hclosing : Bracket.ofClosing? c with
    | none =>
      rw [leadingMarks_other hblank hclosing,
        leadingClosers_eq_zero hblank hclosing (flatMap_text_lex .code (c :: text))]
      rfl
    | some b =>
      obtain rfl := Bracket.closing_of_ofClosing? hclosing
      have hplain : PlainCode b.closing text := by
        cases b <;> exact ⟨by decide, by decide, by decide, fun e => absurd e (by decide)⟩
      rw [lex_code_cons hplain, codeToken_closing] at h ⊢
      rw [leadingMarks_closing, push, leadingClosers]
      -- the innermost bracket is the one that is closed
      cases stack with
      | nil => cases h
      | cons o stack =>
        rw [push, nest, List.foldlM_cons] at h
        obtain ⟨rest, ho, h⟩ := bind_eq_ok h
        simp only [step] at ho
        split at ho
        · next hb =>
          cases ho
          have hfollow : follow (o :: stack) (.closing b line) = .ok stack := if_pos hb
          rw [List.foldlM_cons, bind_of_eq_ok hfollow]
          exact ih h
        · cases ho

/-! ## The marks of lines -/

/-- The mode after lines that have been formatted. -/
theorem mode_formatLines_linesLexemes {width number : Nat} {l : Layout} {raws : List (List Char)}
    {r : List (List Char) × Layout × Nat} (h : formatLines width number l raws = .ok r) :
    (linesLexemes l.mode raws).2 = r.2.1.mode := by
  induction raws generalizing number l r with
  | nil => cases h; rfl
  | cons raw raws ih =>
    obtain ⟨written, l', more, hline, hmore, rfl⟩ := formatLines_cons_eq_ok h
    rw [linesLexemes, ← mode_formatLine hline]
    exact ih (r := more) hmore

/-- Formatting lines follows their marks. -/
theorem formatLines_linesLexemes_stack (width number : Nat) (l : Layout)
    (raws : List (List Char)) :
    (formatLines width number l raws).map (fun r => r.2.1.stack) =
      (marksFrom number (linesLexemes l.mode raws).1).foldlM follow l.stack := by
  induction raws generalizing number l with
  | nil => rfl
  | cons raw raws ih =>
    refine formatLines_cons_follow (fun mode => .lineEnd :: (linesLexemes mode raws).1) rfl rfl
      fun l' => ?_
    rw [marksFrom]
    exact ih (number + 1) l'

end Promptwright.Script
