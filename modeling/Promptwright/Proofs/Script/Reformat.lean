import Promptwright.Proofs.Script.Layout

/-!
# Formatting what has been formatted

Formatting forgets how a script was indented: a script and its formatted form are formatted
alike, with the same width or another one.  Three runs are compared line by line: the first run
over the script, a run with the second width over the script, and a run with the second width
over what the first run writes.  The second run passes through the same layouts as the first.  The
third passes through layouts that are `Copied` from them: it counts lines differently and has no
blank line pending.

## Key results

- `reformat_line`, `reformat_lines`: the three runs, for one line and for all of them
- `format_format`: formatting what has been formatted
-/

namespace Promptwright.Script

/-- The layout `l'` when a formatted script is read again, next to the layout `l` when the
script itself is read.  The next lines to be read have the numbers `number'` and `number`. -/
structure Copied (number number' : Nat) (l l' : Layout) : Prop where
  mode : l'.mode = l.mode
  last : l'.last = l.last
  /-- Blank lines are written only in front of the line that follows them. -/
  blank : l'.blank = false
  /-- A blank line is pending only behind something. -/
  last_of_blank : l.blank = true → l.last.isSome = true
  /-- The same brackets are open, on lines that differ where they differed. -/
  stack : ∃ f : Nat → Nat, l'.stack = l.stack.map (Open.relabel f) ∧
    (∀ o ∈ l.stack, o.line < number ∧ f o.line < number') ∧
    ∀ o ∈ l.stack, ∀ p ∈ l.stack, f o.line = f p.line → o.line = p.line

/-- Before the first line, nothing is known in either run. -/
theorem copied_start (number number' : Nat) : Copied number number' {} {} where
  mode := rfl
  last := rfl
  blank := rfl
  last_of_blank := nofun
  stack := Renumbered.nil number number'

variable {number number' : Nat} {l l' : Layout}

/-- A line starts with a closing bracket if what is written for it does. -/
theorem startsWithCloser_render_lex (mode : Mode) (line : List Char) :
    startsWithCloser (render (lex mode line).1) = startsWithCloser line := by
  rcases requoted_head?_render_lex mode line with h | ⟨h₁, h₂⟩
  · rw [startsWithCloser, startsWithCloser, h]
  · rw [startsWithCloser, startsWithCloser, h₁, h₂]
    rfl

namespace Copied

/-- The brackets that a line opens and closes, in both runs. -/
theorem nest (h : Copied number number' l l') {ts : List Token} {stack : List Open}
    (hs : Script.nest number l.stack ts = .ok stack) :
    ∃ stack', Script.nest number' l'.stack ts = .ok stack' ∧
      Renumbered (number + 1) (number' + 1) stack stack' := by
  have hstack : Renumbered number number' l.stack l'.stack := h.stack
  exact (hstack.nest ts).exists_eq_ok hs

/-- The brackets that a line opens and closes, and those of the line that is written for it. -/
theorem nest_render (h : Copied number number' l l') {line : List Char} {stack : List Open}
    (hs : Script.nest number l.stack (lex l.mode line).1 = .ok stack) :
    ∃ stack', Script.nest number' l'.stack (lex l'.mode (render (lex l.mode line).1)).1 =
      .ok stack' ∧ Renumbered (number + 1) (number' + 1) stack stack' := by
  rw [h.mode, lex_render, nest_map_normalize]
  exact h.nest hs

/-- A line is indented alike in both runs. -/
theorem indentation (h : Copied number number' l l') (width : Nat) (ts : List Token) :
    Script.indentation width l' (ts.map normalize) = Script.indentation width l ts := by
  rw [← indentation_congr h.mode h.stack]
  simp only [Script.indentation, leadingClosers_map_normalize, render_map_normalize]

/-- A line of the script and the line written for it are written alike. -/
theorem indented (h : Copied number number' l l') (width : Nat) (line : List Char) :
    Script.indented width l' (render (lex l.mode line).1) = Script.indented width l line := by
  rw [Script.indented, h.mode, lex_render, h.indentation, render_map_normalize]
  rfl

/-- Lines of the formatted script may be read in between. -/
theorem mono (h : Copied number number' l l') {n n' : Nat} (hn : number ≤ n) (hn' : number' ≤ n') :
    Copied n n' l l' :=
  ⟨h.mode, h.last, h.blank, h.last_of_blank, Renumbered.mono h.stack hn hn'⟩

/-- Both runs keep a blank line in front of the same lines. -/
theorem keepsBlank (h : Copied number number' l l') (blank : Bool) (line : List Char) :
    Script.keepsBlank { l' with blank } (render (lex l.mode line).1) =
      Script.keepsBlank { l with blank } line := by
  rw [Script.keepsBlank, Script.keepsBlank, startsWithCloser_render_lex, Layout.afterOpener,
    Layout.afterOpener, h.last]

/-- What the second run writes for a line that the first one has written. -/
theorem formatLine_indented (h : Copied number number' l l') {line : List Char}
    (ht : Text.Tight line) {stack : List Open}
    (hs : Script.nest number l.stack (lex l.mode line).1 = .ok stack) (hm : l.mode ≠ .template)
    (width width' : Nat) (blank : Bool) :
    ∃ l₁', formatLine width' number' { l' with blank } (Script.indented width l line) =
        .ok (writtenLines width' { l with blank } line, l₁') ∧
      Copied (number + 1) (number' + 1)
        { mode := (lex l.mode line).2, stack, blank := false,
          last := lastMark (Script.indented width l line) l.last } l₁' := by
  have htrim := trim_indented ht width l
  obtain ⟨stack', hnest, hstack⟩ := h.nest_render hs
  -- the second run decides alike about a blank line in front of this one
  have hwritten : writtenLines width' { l' with blank } (render (lex l.mode line).1) =
      writtenLines width' { l with blank } line := by
    rw [writtenLines, writtenLines, h.keepsBlank]
    show (if _ then [[], Script.indented width' l' _] else [Script.indented width' l' _]) = _
    rw [h.indented]
    rfl
  have hm' : l'.mode ≠ .template := fun e => hm (h.mode ▸ e)
  have hne : Text.trim (Script.indented width l line) ≠ [] := by
    rw [htrim]
    exact (tight_render_lex ht l.mode).ne_nil
  have hread := formatLine_text (l := { l' with blank }) hm' width' number' hne
  rw [htrim, hwritten, hnest] at hread
  refine ⟨_, hread, ?_, ?_, rfl, nofun, hstack⟩
  · show (lex l'.mode _).2 = _
    rw [h.mode, lex_render]
  · show lastMark (Script.indented width' l' _) _ = lastMark _ _
    rw [h.indented, lastMark_indented ht, lastMark_indented ht]

end Copied

/-! ## One line -/

/-- A line inside a template literal is written alike in all runs. -/
private theorem reformat_template {raw : List Char} {stack : List Open}
    (hc : Copied number number' l l') (hm : l.mode = .template)
    (hs : nest number l.stack (lex .template raw).1 = .ok stack) (width' : Nat) :
    ∃ l₁' last, formatLines width' number' l' [Text.trimEnd raw] =
        .ok ([Text.trimEnd raw], l₁', last) ∧
      Copied (number + 1) (number' + 1)
        { l with
          mode := (lex .template raw).2, stack, last := lastMark (Text.trimEnd raw) l.last } l₁' := by
  obtain ⟨stack', hn, hstack⟩ := hc.nest hs
  -- the line has lost its last blanks already, and lost nothing that is read
  rw [← nest_lex_trimEnd] at hn
  refine ⟨_, number', formatLines_singleton
      (by rw [formatLine_template (hc.mode.trans hm), hn, Text.trimEnd_trimEnd]; rfl), ?_⟩
  refine ⟨mode_lex_trimEnd .template raw, ?_, hc.blank, ?_, hstack⟩
  · show lastMark _ l'.last = lastMark _ l.last
    rw [hc.last]
  · intro hb
    show (lastMark _ l.last).isSome = true
    unfold lastMark
    split
    · rfl
    · exact hc.last_of_blank hb

/-- A line that is not empty is written alike once it has been written, with the blank line that
was written in front of it. -/
private theorem reformat_text {raw : List Char} {stack : List Open}
    (hc : Copied number number' l l') (hm : l.mode ≠ .template) (ht : Text.trim raw ≠ [])
    (hs : nest number l.stack (lex l.mode (Text.trim raw)).1 = .ok stack)
    (width width' : Nat) :
    ∃ l₁' last, formatLines width' number' l' (writtenLines width l (Text.trim raw)) =
        .ok (writtenLines width' l (Text.trim raw), l₁', last) ∧
      Copied (number + 1) (number' + (writtenLines width l (Text.trim raw)).length)
        { mode := (lex l.mode (Text.trim raw)).2, stack, blank := false,
          last := lastMark (indented width l (Text.trim raw)) l.last } l₁' := by
  have htight := Text.tight_trim ht
  by_cases hk : keepsBlank l (Text.trim raw) = true
  · have hb : l.blank = true := by
      simp only [keepsBlank, Bool.and_eq_true] at hk
      exact hk.1.1
    have hm' : l'.mode ≠ .template := fun e => hm (hc.mode ▸ e)
    -- the blank line is read first, and is pending in front of the line
    have hblank : formatLine width' number' l' [] = .ok ([], { l' with blank := true }) := by
      have hlast : l'.last.isSome = true := by rw [hc.last]; exact hc.last_of_blank hb
      rw [formatLine_empty hm' width' number' rfl, hlast]
    obtain ⟨l₁', hline, hc₁⟩ := (hc.mono (Nat.le_refl _) (Nat.le_succ number')).formatLine_indented
      htight hs hm width width' true
    rw [show ({ l with blank := true } : Layout) = l by rw [← hb]] at hline
    refine ⟨l₁', number' + 1, ?_, ?_⟩
    · rw [writtenLines, if_pos hk, formatLines_cons hblank, formatLines_singleton hline]
      rfl
    · rw [writtenLines, if_pos hk]
      exact hc₁
  · obtain ⟨l₁', hline, hc₁⟩ := hc.formatLine_indented htight hs hm width width' false
    rw [show ({ l' with blank := false } : Layout) = l' by rw [← hc.blank]] at hline
    have hwritten : writtenLines width' { l with blank := false } (Text.trim raw) =
        writtenLines width' l (Text.trim raw) := by
      rw [writtenLines, writtenLines, if_neg hk, if_neg (by simp [keepsBlank])]
      rfl
    rw [hwritten] at hline
    refine ⟨l₁', number', ?_, ?_⟩
    · rw [writtenLines, if_neg hk, formatLines_singleton hline]
    · rw [writtenLines, if_neg hk]
      exact hc₁

/-- One line of the script: a run with another width passes through the same layouts, and what is
written for the line is rewritten to what that run writes. -/
theorem reformat_line {width : Nat} {raw : List Char} {written : List (List Char)} {l₁ : Layout}
    (h : formatLine width number l raw = .ok (written, l₁)) (hc : Copied number number' l l')
    (width' : Nat) :
    ∃ written' l₁' last, formatLine width' number l raw = .ok (written', l₁) ∧
      formatLines width' number' l' written = .ok (written', l₁', last) ∧
      Copied (number + 1) (number' + written.length) l₁ l₁' := by
  cases formatLine_eq_ok_iff.mp h with
  | template hm hs =>
    obtain ⟨l₁', last, hagain, hc₁⟩ := reformat_template hc hm hs width'
    exact ⟨_, l₁', last, formatLine_eq_ok_iff.mpr (.template hm hs), hagain, hc₁⟩
  | empty hm ht =>
    exact ⟨[], l', number' - 1, formatLine_empty hm width' number ht, rfl, hc.mode, hc.last,
      hc.blank, fun h => h, (hc.mono (Nat.le_succ number) (Nat.le_refl _)).stack⟩
  | @text stack hm ht hs =>
    obtain ⟨l₁', last, hagain, hc₁⟩ := reformat_text hc hm ht hs width width'
    -- the other width changes what stands in front of the line, but not its last mark
    have htight := Text.tight_trim ht
    have hsource : formatLine width' number l raw =
        .ok (writtenLines width' l (Text.trim raw),
          { mode := (lex l.mode (Text.trim raw)).2, stack, blank := false,
            last := lastMark (indented width l (Text.trim raw)) l.last }) := by
      rw [lastMark_indented htight, ← lastMark_indented htight width']
      exact formatLine_eq_ok_iff.mpr (.text hm ht hs)
    exact ⟨_, l₁', last, hsource, hagain, hc₁⟩

/-! ## All lines -/

/-- All lines of the script. -/
theorem reformat_lines {width : Nat} {raws : List (List Char)} {written : List (List Char)}
    {l₁ : Layout} {last : Nat}
    (h : formatLines width number l raws = .ok (written, l₁, last))
    (hc : Copied number number' l l') (width' : Nat) :
    ∃ written' l₁' last' n n', formatLines width' number l raws = .ok (written', l₁, last) ∧
      formatLines width' number' l' written = .ok (written', l₁', last') ∧ Copied n n' l₁ l₁' := by
  induction raws generalizing number number' l l' written with
  | nil =>
    rw [formatLines] at h
    cases h
    exact ⟨[], l', number' - 1, number, number', rfl, rfl, hc⟩
  | cons raw raws ih =>
    -- the first line written by the first run is read by the second one, and then the others
    obtain ⟨w, l₂, ⟨more, l₃, k⟩, hline, hrest, hr⟩ := formatLines_cons_eq_ok h
    cases hr
    obtain ⟨w', l₂', k', hline', hcopy, hc₂⟩ := reformat_line hline hc width'
    obtain ⟨more', l₁', last', n, n', hrest', hcopies, hc₁⟩ := ih hrest hc₂
    refine ⟨w' ++ more', l₁', last', n, n', ?_, ?_, hc₁⟩
    · rw [formatLines_cons hline', hrest']
      rfl
    · rw [formatLines_append hcopy, hcopies]
      rfl

/-- What is written for a script are lines. -/
theorem isLine_of_mem_formatLines {width : Nat} {raws : List (List Char)}
    {r : List (List Char) × Layout × Nat} (h : formatLines width number l raws = .ok r)
    (hraws : ∀ raw ∈ raws, '\n' ∉ raw) : ∀ line ∈ r.1, Text.IsLine line := by
  induction raws generalizing number l r with
  | nil =>
    rw [formatLines] at h
    cases h
    simp
  | cons raw raws ih =>
    obtain ⟨written, l₁, more, hline, hrest, rfl⟩ := formatLines_cons_eq_ok h
    intro line hl
    rcases List.mem_append.mp hl with hl | hl
    · exact isLine_of_mem_formatLine hline (hraws raw List.mem_cons_self) line hl
    · exact ih hrest (fun raw' hr => hraws raw' (List.mem_cons_of_mem raw hr)) line hl

/-- A script and its formatted form are formatted alike. -/
theorem formatChars_formatChars {width : Nat} {source target : List Char}
    (h : formatChars width source = .ok target) (width' : Nat) :
    ∃ target', formatChars width' source = .ok target' ∧
      formatChars width' target = .ok target' := by
  obtain ⟨written, l, last, hlines, hm, hs, rfl⟩ := formatChars_eq_ok.mp h
  obtain ⟨written', l', last', n, n', hsource, hcopy, hc⟩ :=
    reformat_lines hlines (copied_start 1 1) width'
  have hs' : l'.stack = [] := by
    obtain ⟨f, hl, -⟩ := hc.stack
    rw [hl, hs]
    rfl
  refine ⟨unlines written', formatChars_eq_ok.mpr ⟨_, _, _, hsource, hm, hs, rfl⟩,
    formatChars_eq_ok.mpr ⟨written', l', last', ?_, hc.mode.trans hm, hs', rfl⟩⟩
  rw [Text.lines_unlines (isLine_of_mem_formatLines hlines (Text.newline_not_mem_lines source))]
  exact hcopy

end Promptwright.Script
