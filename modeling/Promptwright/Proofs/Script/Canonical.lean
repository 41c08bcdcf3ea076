import Promptwright.Proofs.Script.OpenLines
import Promptwright.Proofs.Script.Reformat

/-!
# Layout of formatted scripts

A formatted script has one layout, which can be told from the script alone: how far a line is
indented, and where a blank line may stand.  `InPlace` says so of a line behind the lines before it.
Formatting goes by the lines of the source and by what it knows between them, so the run over the
source is followed by a run over what it has written so far, which passes through layouts that are
`Copied` from those of the first.

## Key results

- `nesting_eq_depth`: lines with open brackets are counted as formatting counts them
- `inPlace_indented`: a line that is written stands in place
- `laid_line`, `laid_lines`: everything written stands in place, line by line
- `format_canonical`: the layout of a formatted script
-/

namespace Promptwright.Script

/-! ## Lines in place -/

/-- What some lines of a script end in. -/
def modeAfter (before : List (List Char)) : Mode := (linesLexemes .code before).2

/-- Some lines end with a character. -/
def EndsWith (before : List (List Char)) (c : Char) : Prop :=
  ∃ text, before.getLast? = some (text ++ [c])

/-- The number of lines that hold a bracket that is still open where a line starts.  In code, the
closing brackets that the line starts with come first. -/
noncomputable def nesting (before : List (List Char)) (line : List Char) : Nat :=
  levels (marksFrom 1 (linesLexemes .code before).1 ++
    if modeAfter before = .code then leadingMarks (before.length + 1) line else [])

/-- How a line of a formatted script stands behind the lines before it. -/
structure InPlace (width : Nat) (before : List (List Char)) (line : List Char) : Prop where
  /-- The line does not end in white space, so that it is blank only if it is empty. -/
  trimmed : Text.trimEnd line = line
  /-- Outside template literals, a blank line stands behind a line that is not blank and that does
  not end in an opening bracket. -/
  blank : line = [] → modeAfter before ≠ .template →
    ∃ c, EndsWith before c ∧ Bracket.ofOpening? c = none
  /-- Outside template literals, the line behind a blank one is not blank and does not start with a
  closing bracket. -/
  behindBlank : before.getLast? = some [] → modeAfter before ≠ .template →
    line ≠ [] ∧ startsWithCloser (Text.trimStart line) = false
  /-- Outside template literals, a line is indented by the lines that hold open brackets.  A star
  that goes on with a comment takes one more space. -/
  indented : line ≠ [] → modeAfter before ≠ .template →
    ∃ text, Text.Tight text ∧ line = List.replicate (width * nesting before line +
      if modeAfter before = .comment ∧ text.head? = some '*' then 1 else 0) ' ' ++ text

/-- Every line stands in place. -/
def AllInPlace (width : Nat) (ls : List (List Char)) : Prop :=
  ∀ before line after, ls = before ++ line :: after → InPlace width before line

/-- The layout of a formatted script. -/
structure Canonical (width : Nat) (target : String) : Prop where
  /-- Every line ends in a line feed. -/
  ends : unlines (Text.lines target.toList) = target.toList
  /-- The last line is not blank. -/
  lastLine : target = "" ∨
    ∃ text c, target.toList = text ++ [c, '\n'] ∧ Text.isBlank c = false
  /-- The first line is not blank. -/
  firstLine : ∀ line, (Text.lines target.toList).head? = some line → line ≠ []
  inPlace : AllInPlace width (Text.lines target.toList)

variable {width number : Nat} {before : List (List Char)} {line : List Char} {l l' : Layout}

/-- A line more. -/
theorem AllInPlace.concat (h : AllInPlace width before) (hline : InPlace width before line) :
    AllInPlace width (before ++ [line]) := by
  intro front x after hsplit
  obtain rfl | ⟨after, y, rfl⟩ := List.eq_nil_or_concat after
  · obtain ⟨rfl, hx⟩ := List.append_inj' hsplit rfl
    obtain rfl := List.singleton_inj.mp hx
    exact hline
  · rw [List.concat_eq_append, ← List.cons_append, ← List.append_assoc] at hsplit
    obtain ⟨rfl, -⟩ := List.append_inj' hsplit rfl
    exact h front x after rfl

/-- Lines that end with a character have a last line that is not blank. -/
theorem EndsWith.getLast?_ne {c : Char} (h : EndsWith before c) : before.getLast? ≠ some [] := by
  obtain ⟨text, htext⟩ := h
  rw [htext]
  simp

/-- Inside a template literal, only the end of a line counts. -/
theorem inPlace_template (hmode : modeAfter before = .template) (htrim : Text.trimEnd line = line) :
    InPlace width before line where
  trimmed := htrim
  blank _ hm := absurd hmode hm
  behindBlank _ hm := absurd hmode hm
  indented _ hm := absurd hmode hm

/-- A blank line. -/
theorem inPlace_blank {c : Char} (h : EndsWith before c) (hc : Bracket.ofOpening? c = none) :
    InPlace width before [] where
  trimmed := rfl
  blank _ _ := ⟨c, h, hc⟩
  behindBlank hblank _ := absurd hblank h.getLast?_ne
  indented hne _ := absurd rfl hne

/-! ## Lines that are indented -/

/-- White space in front of a line of code is passed over. -/
theorem leadingClosers_lex_blank_append {ws : List Char} (h : ∀ c ∈ ws, Text.isBlank c = true)
    (line : List Char) :
    leadingClosers (lex .code (ws ++ line)).1 = leadingClosers (lex .code line).1 := by
  rw [lex_blank_append .code h]
  induction ws with
  | nil => rfl
  | cons c ws ih =>
    have ih := ih fun d hd => h d (List.mem_cons_of_mem c hd)
    rw [List.map_cons, List.cons_append, blankToken, leadingClosers,
      if_pos (h c List.mem_cons_self)]
    exact ih

/-- Lines that hold open brackets, as formatting counts them. -/
theorem nesting_eq_depth {written : List (List Char)} {last : Nat} {stack : List Open}
    (hrun : formatLines width 1 {} before = .ok (written, l, last))
    (hline : nest (before.length + 1) l.stack (lex l.mode line).1 = .ok stack) :
    nesting before line = depth (if l.mode = .code then
      l.stack.drop (leadingClosers (lex l.mode line).1) else l.stack) := by
  have hmode : modeAfter before = l.mode := mode_formatLines_linesLexemes hrun
  have hmarks : (marksFrom 1 (linesLexemes .code before).1).foldlM follow [] = .ok l.stack := by
    have hstack := formatLines_linesLexemes_stack width 1 {} before
    rw [hrun] at hstack
    exact hstack.symm
  -- the lines of the brackets that are open do not get smaller towards the innermost one
  have hsorted : Sorted (1 + before.length) l.stack := sorted_formatLines ⟨.nil, by simp⟩ hrun
  rw [nesting, hmode]
  by_cases hm : l.mode = .code
  · rw [if_pos hm, if_pos hm]
    rw [hm] at hline ⊢
    refine levels_eq_depth ?_ (hsorted.drop _)
    rw [List.foldlM_append, bind_of_eq_ok hmarks]
    exact foldlM_follow_leadingMarks hline
  · rw [if_neg hm, if_neg hm, List.append_nil]
    exact levels_eq_depth hmarks hsorted

/-- A line that has been formatted, indented behind lines that have been formatted. -/
theorem indented_eq_replicate {written : List (List Char)} {last : Nat} {stack : List Open}
    (hrun : formatLines width 1 {} before = .ok (written, l, last))
    (hrender : render (lex l.mode line).1 = line)
    (hline : nest (before.length + 1) l.stack (lex l.mode line).1 = .ok stack) :
    indented width l line = List.replicate (width * nesting before (indented width l line) +
      if modeAfter before = .comment ∧ line.head? = some '*' then 1 else 0) ' ' ++ line := by
  have hindented : ∃ n, indented width l line = List.replicate n ' ' ++ line ∧
      n = width * depth (if l.mode = .code then
        l.stack.drop (leadingClosers (lex l.mode line).1) else l.stack) +
        if l.mode = .comment ∧ line.head? = some '*' then 1 else 0 := by
    refine ⟨_, ?_, rfl⟩
    rw [indented, indentation_eq_replicate, hrender]
  obtain ⟨n, heq, hn⟩ := hindented
  have hspaces : ∀ c ∈ List.replicate n ' ', Text.isBlank c = true := by
    intro c hc
    rw [List.eq_of_mem_replicate hc]
    decide
  -- the brackets of the line are the same with the white space in front of it
  have hnest : nesting before (indented width l line) = depth (if l.mode = .code then
      l.stack.drop (leadingClosers (lex l.mode line).1) else l.stack) := by
    rw [heq, nesting_eq_depth hrun (by rw [nest_lex_blank_append _ hspaces]; exact hline)]
    split
    · next hm => rw [hm, leadingClosers_lex_blank_append hspaces]
    · rfl
  have hmode : modeAfter before = l.mode := mode_formatLines_linesLexemes hrun
  rw [hnest, hmode, ← hn]
  exact heq

/-- A line that has been formatted stands in place behind lines that have been formatted. -/
theorem inPlace_indented {written : List (List Char)} {last : Nat} {stack : List Open}
    (hrun : formatLines width 1 {} before = .ok (written, l, last)) (ht : Text.Tight line)
    (hrender : render (lex l.mode line).1 = line)
    (hline : nest (before.length + 1) l.stack (lex l.mode line).1 = .ok stack)
    (hblank : before.getLast? = some [] → startsWithCloser line = false) :
    InPlace width before (indented width l line) := by
  have heq := indented_eq_replicate hrun hrender hline
  have hne : indented width l line ≠ [] := by
    rw [heq]
    exact List.append_ne_nil_of_right_ne_nil _ ht.ne_nil
  refine ⟨Text.trimEnd_eq_self ?_, fun h => absurd h hne, fun h _ => ⟨hne, ?_⟩,
    fun _ _ => ⟨line, ht, heq⟩⟩
  · rw [getLast?_indented ht, hrender]
    exact ht.last
  · rw [heq, Text.trimStart_spaces_append ht.head]
    exact hblank h

/-! ## What has been written -/

/-- A line of the source is written in place behind what has been written before. -/
theorem Copied.inPlace {written : List (List Char)} {last : Nat} {blank : Bool} {stack : List Open}
    (h : Copied number (before.length + 1) l l')
    (hrun : formatLines width 1 {} before = .ok (written, { l' with blank }, last))
    (ht : Text.Tight line) (hline : Script.nest number l.stack (lex l.mode line).1 = .ok stack)
    (hblank : before.getLast? = some [] → startsWithCloser line = false) :
    InPlace width before (Script.indented width l line) := by
  obtain ⟨stack', hnest, -⟩ := h.nest_render hline
  have hrender : render (lex l'.mode (render (lex l.mode line).1)).1 =
      render (lex l.mode line).1 := by
    rw [h.mode, lex_render, render_map_normalize]
  rw [← h.indented]
  refine inPlace_indented (l := { l' with blank }) hrun (tight_render_lex ht l.mode) hrender hnest
    fun hlast => ?_
  rw [startsWithCloser_render_lex]
  exact hblank hlast

/-- What has been written for the lines of a source before some line. -/
structure Laid (width number : Nat) (l : Layout) (before : List (List Char)) : Prop where
  /-- What has been written is written again for itself. -/
  reread : ∃ l' last, formatLines width 1 {} before = .ok (before, l', last) ∧
    Copied number (before.length + 1) l l'
  /-- Outside template literals, the last mark ends what has been written. -/
  last : l.mode ≠ .template →
    before = [] ∧ l.last = none ∨ ∃ c, l.last = some c ∧ EndsWith before c
  inPlace : AllInPlace width before

/-- Nothing has been written. -/
theorem laid_start (width : Nat) : Laid width 1 {} [] where
  reread := ⟨{}, 0, rfl, copied_start 1 1⟩
  last _ := .inl ⟨rfl, rfl⟩
  inPlace before line after h := by cases before <;> cases h

/-- Lines end with the last character of the last line. -/
theorem endsWith_concat {c : Char} (before : List (List Char)) (h : line.getLast? = some c) :
    EndsWith (before ++ [line]) c := by
  obtain ⟨text, rfl⟩ := List.getLast?_eq_some_iff.mp h
  exact ⟨text, List.getLast?_concat⟩

/-- The last line written for a line is its text. -/
theorem exists_writtenLines_eq (width : Nat) (l : Layout) (line : List Char) :
    ∃ front, writtenLines width l line = front ++ [indented width l line] := by
  unfold writtenLines
  split
  · exact ⟨[[]], rfl⟩
  · exact ⟨[], rfl⟩

/-- Where a line ends a template literal, there is more on it than white space. -/
theorem trimEnd_ne_nil_of_mode {raw : List Char} (h : (lex .template raw).2 ≠ .template) :
    Text.trimEnd raw ≠ [] := by
  intro hraw
  rw [← mode_lex_trimEnd, hraw, lex] at h
  exact h rfl

/-- A line of the source that is written anew, perhaps behind a blank one. -/
theorem Laid.allInPlace_writtenLines (h : Laid width number l before) (hm : l.mode ≠ .template)
    (ht : Text.Tight line) {stack : List Open}
    (hline : nest number l.stack (lex l.mode line).1 = .ok stack) :
    AllInPlace width (before ++ writtenLines width l line) := by
  obtain ⟨l', last, hrun, hc⟩ := h.reread
  by_cases hk : keepsBlank l line = true
  · rw [writtenLines, if_pos hk]
    simp only [keepsBlank, Bool.and_eq_true, Bool.not_eq_true'] at hk
    obtain ⟨⟨hblank, hcloser⟩, hopener⟩ := hk
    -- a blank line is pending only behind a line that it may stand behind
    obtain ⟨c, hlast, hends⟩ : ∃ c, l.last = some c ∧ EndsWith before c := by
      obtain ⟨-, hnone⟩ | hsome := h.last hm
      · have := hc.last_of_blank hblank
        rw [hnone] at this
        cases this
      · exact hsome
    have hc' : Bracket.ofOpening? c = none := by
      rw [Layout.afterOpener, hlast] at hopener
      exact Option.isNone_iff_eq_none.mp (Option.isSome_eq_false_iff.mp hopener)
    have hm' : l'.mode ≠ .template := fun e => hm (hc.mode ▸ e)
    have hblanked : formatLines width 1 {} (before ++ [[]]) =
        .ok (before, { l' with blank := l'.last.isSome }, 1 + before.length) := by
      rw [formatLines_append hrun, formatLines_singleton (formatLine_empty hm' _ _ rfl)]
      exact congrArg (fun ls => Except.ok (ls, _)) (List.append_nil before)
    have hc₁ : Copied number ((before ++ [[]]).length + 1) l l' := by
      rw [List.length_append]
      exact hc.mono (Nat.le_refl number) (Nat.le_succ _)
    have hplace := hc₁.inPlace hblanked ht hline fun _ => hcloser
    rw [List.append_cons before [] [indented width l line]]
    exact (h.inPlace.concat (inPlace_blank hends hc')).concat hplace
  · rw [writtenLines, if_neg hk]
    have hrun' : formatLines width 1 {} before =
        .ok (before, { l' with blank := l'.blank }, last) := hrun
    refine h.inPlace.concat (hc.inPlace hrun' ht hline fun hblank => ?_)
    -- what has been written does not end in a blank line
    obtain ⟨rfl, -⟩ | ⟨c, -, hends⟩ := h.last hm
    · cases hblank
    · exact absurd hblank hends.getLast?_ne

/-- One line of the source. -/
theorem laid_line {raw : List Char} {written : List (List Char)} {l₁ : Layout}
    (h : Laid width number l before)
    (hline : formatLine width number l raw = .ok (written, l₁)) :
    Laid width (number + 1) l₁ (before ++ written) := by
  -- the lines that were written are formatted as they are, so one more line is seen behind them
  obtain ⟨l', last, hrun, hc⟩ := h.reread
  have hreread : ∃ l' last, formatLines width 1 {} (before ++ written) =
      .ok (before ++ written, l', last) ∧
      Copied (number + 1) ((before ++ written).length + 1) l₁ l' := by
    obtain ⟨written', l₁', last', hagain, hcopy, hc₁⟩ := reformat_line hline hc width
    rw [hline] at hagain
    cases hagain
    refine ⟨l₁', last', ?_, ?_⟩
    · rw [formatLines_append hrun, Nat.add_comm 1, hcopy]
      rfl
    · rw [List.length_append, Nat.add_right_comm]
      exact hc₁
  -- inside a template literal the line stays where it is, a blank one adds nothing, and any other
  -- one is laid out
  cases formatLine_eq_ok_iff.mp hline with
  | template hm hs =>
    have hmode : modeAfter before = .template := by
      rw [← hm, ← hc.mode]
      exact mode_formatLines_linesLexemes hrun
    refine ⟨hreread, fun hend => .inr ?_,
      h.inPlace.concat (inPlace_template hmode (Text.trimEnd_trimEnd raw))⟩
    have hgl := List.getLast?_eq_some_getLast (trimEnd_ne_nil_of_mode hend)
    exact ⟨_, by rw [lastMark, Text.trimEnd_trimEnd, hgl], endsWith_concat before hgl⟩
  | empty hm ht =>
    rw [List.append_nil] at hreread ⊢
    exact ⟨hreread, h.last, h.inPlace⟩
  | text hm ht hstack =>
    have htight := Text.tight_trim ht
    refine ⟨hreread, fun _ => .inr ?_, h.allInPlace_writtenLines hm htight hstack⟩
    obtain ⟨front, hfront⟩ := exists_writtenLines_eq width l (Text.trim raw)
    rw [hfront, ← List.append_assoc]
    have hgl := List.getLast?_eq_some_getLast (tight_render_lex htight l.mode).ne_nil
    exact ⟨_, by rw [lastMark_indented htight, hgl],
      endsWith_concat _ (by rw [getLast?_indented htight, hgl])⟩

/-- All lines of the source. -/
theorem laid_lines {raws : List (List Char)} {r : List (List Char) × Layout × Nat}
    (h : Laid width number l before) (hr : formatLines width number l raws = .ok r) :
    Laid width (number + raws.length) r.2.1 (before ++ r.1) := by
  induction raws generalizing number l before r with
  | nil =>
    cases hr
    rw [List.append_nil]
    exact h
  | cons raw raws ih =>
    obtain ⟨written, l₁, more, hline, hmore, rfl⟩ := formatLines_cons_eq_ok hr
    have hmore := ih (laid_line h hline) hmore
    rw [List.length_cons, Nat.add_comm raws.length, ← Nat.add_assoc, ← List.append_assoc]
    exact hmore

/-- A script with blank lines at its ends, at the ends of a block and inside a template literal, with
a comment of two lines and with two brackets on one line. -/
def looseArray : String :=
  "\n[\n\n 'a',\x7b\r\n/* b\n* c */ k: \x60x  \n\n y\x60,\n\n\n\tn: (1) \x7d\n\n]\n\n"

/-- The script as it is formatted. -/
def neatArray : String :=
  "[\n  \"a\",\x7b\n    /* b\n     * c */ k: \x60x\n\n y\x60,\n\n    n: (1) \x7d\n]\n"

end Promptwright.Script
