import Promptwright.Proofs.Script.Paragraphs

/-!
# Formatting piece by piece

A script that is accepted leaves nothing open.  What stands behind it is formatted as if it stood
alone: only its lines have other numbers, and these count up to a shift.  The one thing that is seen
of what is written before is its last character, and that only by a blank line in between.

## Key results

- `agree_formatLines_inStep`: two runs over the same lines, counted differently
- `ended_formatLines`: what is known behind a last line that is not blank
- `agree_formatLines_behind`: lines behind a script that leaves nothing open
- `agree_format_append`: a script right behind another one
- `agree_format_append_blank`: a script behind another one and blank lines
-/

namespace Promptwright.Text

/-! ## Texts one behind the other -/

/-- The lines of a text behind one whose last line ends. -/
theorem lines_append_of_newline {a : List Char} (h : a.getLast? = some '\n') (b : List Char) :
    lines (a ++ b) = lines a ++ lines b := by
  induction a using line_induction with
  | nil => cases h
  | last l hne hl => exact absurd (List.mem_of_getLast? h) hl
  | line l s hl ih =>
    -- the last line of the rest ends, too, unless there is no rest
    have ih : lines (s ++ b) = lines s ++ lines b := by
      cases s with
      | nil => rfl
      | cons c cs => exact ih (by simpa using h)
    rw [List.append_assoc, List.cons_append]
    by_cases hr : l.getLast? = some '\r'
    · obtain ⟨l', rfl⟩ := List.getLast?_eq_some_iff.mp hr
      have hl' : '\n' ∉ l' := fun hc => hl (List.mem_append_left _ hc)
      rw [List.append_assoc, List.append_assoc, List.singleton_append, List.singleton_append,
        lines_append_return hl', lines_append_return hl', ih]
      rfl
    · rw [lines_append ⟨hl, hr⟩, lines_append ⟨hl, hr⟩, ih]
      rfl

/-- The lines of a text hold no other characters than the text. -/
theorem mem_of_mem_lines {s l : List Char} {c : Char} (hl : l ∈ lines s) (hc : c ∈ l) : c ∈ s := by
  induction s using line_induction with
  | nil => cases hl
  | last l' hne hn =>
    rw [lines_last hn hne, List.mem_singleton] at hl
    exact hl ▸ hc
  | line l' s hn ih =>
    obtain ⟨raw, hraw, hread⟩ := exists_lines_eq hn s
    rw [hraw] at hl
    obtain rfl | hl := List.mem_cons.mp hl
    · obtain rfl | rfl := hread
      · exact List.mem_append_left _ hc
      · exact List.mem_append_left _ (List.mem_append_left _ hc)
    · exact List.mem_append_right _ (List.mem_cons_of_mem _ (ih hl))

/-- A text that is not empty has lines. -/
theorem lines_ne_nil {s : List Char} (h : s ≠ []) : lines s ≠ [] := by
  fun_cases lines s with
  | case1 => exact absurd rfl h
  | case2 cs => simp
  | case3 cs => simp
  | case4 c cs hn hr =>
    cases lines cs <;> simp [consHead]

/-- A text that is not white space ends, without the white space at its end, like without that at
both ends. -/
theorem getLast?_trimEnd {s : List Char} (h : trim s ≠ []) :
    (trimEnd s).getLast? = (trim s).getLast? := by
  obtain ⟨pre, post, hs, -, hpost⟩ := exists_eq_trim s
  have hlast : (pre ++ trim s).getLast? = (trim s).getLast? := by
    rw [List.getLast?_append]
    cases hg : (trim s).getLast? with
    | none => exact absurd (List.getLast?_eq_none_iff.mp hg) h
    | some c => rfl
  have hkept : trimEnd s = pre ++ trim s := by
    conv => lhs; rw [hs]
    rw [trimEnd_append_blank _ hpost]
    refine trimEnd_eq_self fun c hc => (tight_trim h).last c ?_
    rwa [hlast] at hc
  rw [hkept, hlast]

end Promptwright.Text

namespace Promptwright.Script

variable {width number number' : Nat} {l l' : Layout}

/-! ## Runs that count lines differently -/

/-- Layouts in two runs over the same lines, the next of which have the numbers `number` and
`number'`. -/
structure InStep (number number' : Nat) (l l' : Layout) : Prop where
  mode : l'.mode = l.mode
  stack : Renumbered number number' l.stack l'.stack
  blank : l'.blank = l.blank
  last : l'.last = l.last

/-- The blank line that is written in front of a line, if there is one. -/
def gapBefore (l : Layout) (line : List Char) : List (List Char) :=
  if keepsBlank l line then [[]] else []

/-- A line that is not blank is written alike where the same is open, but for a blank line in front
of it.  What else is known behind it does not hang on what is known in front of it. -/
theorem agree_formatLine_text (hmode : l'.mode = l.mode)
    (hstack : Renumbered number number' l.stack l'.stack) (hm : l.mode ≠ .template)
    {line : List Char} (hne : Text.trim line ≠ []) (width : Nat) :
    Agree (fun r r' => InStep (number + 1) (number' + 1) r.2 r'.2 ∧
        ∃ text, r.1 = gapBefore l (Text.trim line) ++ [text] ∧
          r'.1 = gapBefore l' (Text.trim line) ++ [text])
      (formatLine width number l line) (formatLine width number' l' line) := by
  -- the same text is written, and only the gap in front of it may differ
  have hsplit : ∀ l : Layout, writtenLines width l (Text.trim line) =
      gapBefore l (Text.trim line) ++ [indented width l (Text.trim line)] := by
    intro l
    rw [writtenLines, gapBefore]
    split <;> rfl
  have hindented : indented width l' (Text.trim line) = indented width l (Text.trim line) := by
    rw [indented, indented, hmode, indentation_congr hmode hstack]
  have hlast : lastMark (indented width l (Text.trim line)) l'.last =
      lastMark (indented width l (Text.trim line)) l.last := by
    rw [lastMark_indented (Text.tight_trim hne), lastMark_indented (Text.tight_trim hne)]
  rw [formatLine_text hm width number hne, formatLine_text (hmode ▸ hm) width number' hne, hsplit,
    hsplit, hmode, hindented, hlast]
  exact (hstack.nest _).map fun stack stack' h => ⟨⟨rfl, h, rfl, rfl⟩, _, rfl, rfl⟩

/-- One line, counted differently. -/
theorem agree_formatLine_inStep (h : InStep number number' l l') (width : Nat) (raw : List Char) :
    Agree (fun r r' => r'.1 = r.1 ∧ InStep (number + 1) (number' + 1) r.2 r'.2)
      (formatLine width number l raw) (formatLine width number' l' raw) := by
  by_cases hm : l.mode = .template
  · rw [formatLine_template hm, formatLine_template (h.mode.trans hm), h.last]
    exact (h.stack.nest _).map fun stack stack' hstack => ⟨rfl, ⟨rfl, hstack, h.blank, rfl⟩⟩
  have hm' : l'.mode ≠ .template := fun e => hm (h.mode ▸ e)
  by_cases ht : Text.trim raw = []
  · rw [formatLine_empty hm width number ht, formatLine_empty hm' width number' ht, h.last]
    exact .ok ⟨rfl, h.mode, h.stack.mono (Nat.le_succ _) (Nat.le_succ _), rfl, rfl⟩
  · have hgap : gapBefore l' (Text.trim raw) = gapBefore l (Text.trim raw) := by
      rw [gapBefore, gapBefore, keepsBlank, keepsBlank, Layout.afterOpener, Layout.afterOpener,
        h.blank, h.last]
    refine (agree_formatLine_text h.mode h.stack hm ht width).imp_of_eq_ok ?_
    rintro r r' - ⟨hstep, text, hr, hr'⟩
    exact ⟨by rw [hr, hr', hgap], hstep⟩

/-- The same lines, counted differently. -/
theorem agree_formatLines_inStep (h : InStep number number' l l') (width : Nat)
    (raws : List (List Char)) :
    Agree EndAlike (formatLines width number l raws) (formatLines width number' l' raws) := by
  induction raws generalizing number number' l l' with
  | nil =>
    obtain ⟨f, hstack, -⟩ := h.stack
    exact .ok ⟨rfl, h.mode, by rw [hstack]; exact List.map_eq_nil_iff⟩
  | cons raw raws ih =>
    rw [formatLines_cons_eq_bind, formatLines_cons_eq_bind]
    have hline := agree_formatLine_inStep h width raw
    refine (hline.mapError fun _ _ => id).bind fun r r' ⟨hwritten, hstep⟩ => ?_
    refine (ih hstep).map fun s s' hs => ⟨?_, hs.mode, hs.stack⟩
    rw [hwritten, hs.written]

/-! ## Behind a last line that is not blank -/

/-- Whether a line, without the white space at its end, ends in an opening bracket. -/
def endsInOpener (line : List Char) : Bool :=
  ((Text.trimEnd line).getLast?.bind Bracket.ofOpening?).isSome

/-- What is known behind a line that is not blank. -/
structure Ended (line : List Char) (l : Layout) : Prop where
  blank : l.blank = false
  last : l.last.isSome = true
  afterOpener : l.afterOpener = endsInOpener line

/-- No blank line is pending inside a template literal, as it starts on a line that is not blank. -/
def Unpended (l : Layout) : Prop := l.mode = .template → l.blank = false

/-- A character that is written for another one opens a bracket if that one does. -/
theorem Requoted.isSome_ofOpening? {a b : Option Char} (h : Requoted a b) :
    (b.bind Bracket.ofOpening?).isSome = (a.bind Bracket.ofOpening?).isSome := by
  obtain rfl | ⟨rfl, rfl⟩ := h
  · rfl
  · rfl

/-- One line, of which some is left when it is trimmed. -/
theorem ended_formatLine {line : List Char} {written : List (List Char)} {l₁ : Layout}
    (h : formatLine width number l line = .ok (written, l₁)) (hl : Unpended l)
    (hne : Text.trim line ≠ []) : Ended line l₁ := by
  have hmark : ∃ c, (Text.trimEnd line).getLast? = some c := by
    rw [Text.getLast?_trimEnd hne]
    exact ⟨_, List.getLast?_eq_some_getLast hne⟩
  obtain ⟨c, hc⟩ := hmark
  -- inside a template literal the line is kept, so its last character is as well
  cases formatLine_eq_ok_iff.mp h with
  | template hm hs =>
    have hlast : lastMark (Text.trimEnd line) l.last = some c := by
      rw [lastMark, Text.trimEnd_trimEnd, hc]
    refine ⟨hl hm, by rw [hlast]; rfl, ?_⟩
    rw [Layout.afterOpener, endsInOpener, hlast, hc]
  | empty hm ht => exact absurd ht hne
  | text hm ht hs =>
    have htight := Text.tight_trim hne
    have hlast := lastMark_indented htight width l l.last
    refine ⟨rfl, ?_, ?_⟩
    · rw [hlast, List.getLast?_eq_some_getLast (tight_render_lex htight l.mode).ne_nil]
      rfl
    · rw [Layout.afterOpener, hlast, endsInOpener, Text.getLast?_trimEnd hne]
      exact (requoted_getLast?_render_lex l.mode (Text.trim line)).isSome_ofOpening?

/-- One line keeps blank lines out of template literals. -/
theorem unpended_formatLine {raw : List Char} {written : List (List Char)} {l₁ : Layout}
    (h : formatLine width number l raw = .ok (written, l₁)) (hl : Unpended l) : Unpended l₁ := by
  cases formatLine_eq_ok_iff.mp h with
  | template hm hs => exact fun _ => hl hm
  | empty hm ht => exact fun e => absurd e hm
  | text hm ht hs => exact fun _ => rfl

/-- All lines, the last of which is not blank. -/
theorem ended_formatLines {raws : List (List Char)} {line : List Char}
    {r : List (List Char) × Layout × Nat} (h : formatLines width number l raws = .ok r)
    (hl : Unpended l) (hline : raws.getLast? = some line) (hne : Text.trim line ≠ []) :
    Ended line r.2.1 := by
  induction raws generalizing number l r with
  | nil => cases hline
  | cons raw raws ih =>
    obtain ⟨written, l₁, more, hraw, hmore, rfl⟩ := formatLines_cons_eq_ok h
    cases raws with
    | nil =>
      cases hline
      cases hmore
      exact ended_formatLine hraw hl hne
    | cons raw' raws =>
      rw [List.getLast?_cons_cons] at hline
      exact ih (r := more) hmore (unpended_formatLine hraw hl) hline

/-! ## Behind a script that leaves nothing open -/

/-- A line that starts with a closing bracket is refused where none is open. -/
theorem nest_nil_of_startsWithCloser {line : List Char} (h : startsWithCloser line = true)
    (number : Nat) : ∃ fault, nest number [] (lex .code line).1 = .error fault := by
  cases line with
  | nil => cases h
  | cons c cs =>
    obtain ⟨b, hb⟩ := Option.isSome_iff_exists.mp h
    obtain rfl := Bracket.closing_of_ofClosing? hb
    refine ⟨.unmatched b, ?_⟩
    cases b <;> rfl

/-- Lines behind a script that leaves nothing open are written as if they stood alone, perhaps with
a blank line in front of them. -/
theorem agree_formatLines_behind {line : List Char} (hne : Text.trim line ≠ [])
    (hmode : l.mode = .code) (hstack : l.stack = []) (number width : Nat)
    (rest : List (List Char)) :
    Agree (fun r r' => EndAlike ((if l.blank && !l.afterOpener then [[]] else []) ++ r.1, r.2) r')
      (formatLines width 1 {} (line :: rest)) (formatLines width number l (line :: rest)) := by
  have hrenumbered : Renumbered 1 number ({} : Layout).stack l.stack := hstack ▸ .nil 1 number
  have hline := (agree_formatLine_text (l := {}) hmode hrenumbered (by decide) hne
    width).imp_of_eq_ok fun r r' hr h => And.intro hr h
  rw [formatLines_cons_eq_bind, formatLines_cons_eq_bind]
  refine (hline.mapError fun _ _ => id).bind fun r r' ⟨hr, hstep, text, htext, htext'⟩ => ?_
  -- the line is accepted, so it starts with no closing bracket
  have hcloser : startsWithCloser (Text.trim line) = false := by
    by_contra hcloser
    obtain ⟨fault, hfault⟩ :=
      nest_nil_of_startsWithCloser (Bool.of_not_eq_false hcloser) 1
    rw [formatLine_text (by decide) width 1 hne] at hr
    have hnest : nest 1 ({} : Layout).stack (lex ({} : Layout).mode (Text.trim line)).1 =
        .error fault := hfault
    rw [hnest] at hr
    cases hr
  have hfront : gapBefore l (Text.trim line) =
      if l.blank && !l.afterOpener then [[]] else [] := by
    rw [gapBefore, keepsBlank, hcloser, Bool.not_false, Bool.and_true]
  have hnone : gapBefore {} (Text.trim line) = [] := rfl
  refine (agree_formatLines_inStep hstep width rest).map fun s s' hs => ⟨?_, hs.mode, hs.stack⟩
  rw [htext, htext', hfront, hnone, hs.written]
  simp

/-! ## Scripts -/

/-- Text that ends with a line that is not blank, and with the end of that line. -/
structure EndsIn (text line : List Char) : Prop where
  newline : text.getLast? = some '\n'
  last : (Text.lines text).getLast? = some line
  ne_nil : Text.trim line ≠ []

/-- The first line of a text is not blank. -/
def StartsInText (text : List Char) : Prop :=
  ∃ line ∈ (Text.lines text).head?, Text.trim line ≠ []

/-- One or more blank lines. -/
structure BlankLines (text : List Char) : Prop where
  newline : text.getLast? = some '\n'
  blank : ∀ c ∈ text, Text.isBlank c = true

/-- Nothing is left of blank lines. -/
theorem BlankLines.trim_eq_nil {text line : List Char} (h : BlankLines text)
    (hline : line ∈ Text.lines text) : Text.trim line = [] :=
  Text.trim_eq_nil_iff.mpr fun c hc => h.blank c (Text.mem_of_mem_lines hline hc)

/-- Two scripts of which one is accepted if the other one is, and the lines that are written for the
second one and not for the first. -/
theorem agree_formatChars {source source' : List Char} {front : List (List Char)}
    (h : Agree (fun r r' => EndAlike (front ++ r.1, r.2) r')
      (formatLines width 1 {} (Text.lines source)) (formatLines width 1 {} (Text.lines source'))) :
    Agree (fun t t' => t' = unlines front ++ t) (formatChars width source)
      (formatChars width source') := by
  refine agree_of_ok (fun t ht => ?_) fun t' ht' => ?_
  · obtain ⟨written, l, last, hlines, hm, hs, rfl⟩ := formatChars_eq_ok.mp ht
    obtain ⟨⟨written', l', last'⟩, hlines', halike⟩ := h.exists_eq_ok hlines
    refine ⟨unlines written', formatChars_eq_ok.mpr ⟨written', l', last', hlines',
      halike.mode.trans hm, halike.stack.mpr hs, rfl⟩, ?_⟩
    rw [← unlines_append]
    exact congrArg unlines halike.written
  · obtain ⟨written', l', last', hlines', hm, hs, rfl⟩ := formatChars_eq_ok.mp ht'
    obtain ⟨⟨written, l, last⟩, hlines, halike⟩ := (h.flip fun _ _ => id).exists_eq_ok hlines'
    exact ⟨unlines written, formatChars_eq_ok.mpr ⟨written, l, last, hlines,
      halike.mode.symm.trans hm, halike.stack.mp hs, rfl⟩⟩

/-- A script behind another one that is accepted, with any number of blank lines in between. -/
theorem agree_formatChars_append {a b text ta line : List Char} {blanks : List (List Char)}
    (ha : formatChars width a = .ok ta) (hend : EndsIn a line)
    (hblanks : ∀ l ∈ blanks, Text.trim l = []) (hstart : StartsInText b)
    (htext : Text.lines text = Text.lines a ++ (blanks ++ Text.lines b)) :
    Agree (fun tb t => t =
        ta ++ ((if !blanks.isEmpty && !endsInOpener line then ['\n'] else []) ++ tb))
      (formatChars width b) (formatChars width text) := by
  obtain ⟨written, l, last, hrun, hm, hs, rfl⟩ := formatChars_eq_ok.mp ha
  -- behind the first script the layout is that of its end, and not inside anything
  have hended : Ended line l := ended_formatLines hrun (fun _ => rfl) hend.last hend.ne_nil
  have hm' : l.mode ≠ .template := by
    rw [hm]
    decide
  obtain ⟨first, hfirst, hne⟩ := hstart
  obtain ⟨rest, hb⟩ := List.head?_eq_some_iff.mp hfirst
  have hgap : l.blank = (false && l.last.isSome) := hended.blank
  have hbehind := agree_formatLines_behind
    (l := { l with blank := (false || !blanks.isEmpty) && l.last.isSome }) hne hm hs
    (1 + (Text.lines a).length + blanks.length) width rest
  -- a gap is left just if there are blank lines and no bracket has been opened
  have hfront : ((false || !blanks.isEmpty) && l.last.isSome && !l.afterOpener) =
      (!blanks.isEmpty && !endsInOpener line) := by
    rw [hended.last, hended.afterOpener, Bool.false_or, Bool.and_true]
  have hopener : ∀ blank, Layout.afterOpener { l with blank } = l.afterOpener := fun _ => rfl
  rw [hopener, hfront] at hbehind
  have hlines : Agree (fun r r' => EndAlike
      ((written ++ if !blanks.isEmpty && !endsInOpener line then [[]] else []) ++ r.1, r.2) r')
      (formatLines width 1 {} (Text.lines b)) (formatLines width 1 {} (Text.lines text)) := by
    rw [htext, formatLines_append hrun, formatLines_blank_append hm' hgap hblanks, hb]
    rw [← id_map (formatLines width 1 {} (first :: rest))]
    refine hbehind.map fun r r' h => ⟨?_, h.mode, h.stack⟩
    show written ++ r'.1 = _
    rw [h.written, List.append_assoc]
    rfl
  refine (agree_formatChars hlines).imp_of_eq_ok fun tb t _ ht => ?_
  rw [ht, unlines_append, List.append_assoc]
  split <;> rfl

/-- A script right behind another one that is accepted. -/
theorem agree_format_append {a b ta : String} (ha : format width a = .ok ta)
    (hend : a = "" ∨ ∃ line, EndsIn a.toList line) (hstart : StartsInText b.toList) :
    Agree (fun tb t => t = ta ++ tb) (format width b) (format width (a ++ b)) := by
  -- behind an empty script there is nothing to be joined
  obtain rfl | ⟨line, hend⟩ := hend
  · have hempty : format width "" = .ok "" := rfl
    obtain rfl := Except.ok.inj (hempty.symm.trans ha)
    rw [String.empty_append]
    have hself : Agree Eq (format width b) (format width b) :=
      Both.refl (fun _ => trivial) (fun _ => rfl) _
    exact hself.imp_of_eq_ok fun tb t _ h => by rw [← h, String.empty_append]
  · obtain ⟨cs, hcs, rfl⟩ := map_eq_ok ha
    have hlines : Text.lines (a ++ b).toList =
        Text.lines a.toList ++ ([] ++ Text.lines b.toList) := by
      rw [String.toList_append, Text.lines_append_of_newline hend.newline, List.nil_append]
    refine (agree_formatChars_append hcs hend (List.forall_mem_nil _) hstart
      hlines).map fun tb t ht => ?_
    rw [ht, String.ofList_append]
    rfl

/-- A script behind blank lines that stand behind another one that is accepted. -/
theorem agree_format_append_blank {a blanks b ta : String} {line : List Char}
    (ha : format width a = .ok ta) (hend : EndsIn a.toList line) (hblank : BlankLines blanks.toList)
    (hstart : StartsInText b.toList) :
    Agree (fun tb t => t = ta ++ ((if endsInOpener line then "" else "\n") ++ tb))
      (format width b) (format width (a ++ (blanks ++ b))) := by
  obtain ⟨cs, hcs, rfl⟩ := map_eq_ok ha
  have hlines : Text.lines (a ++ (blanks ++ b)).toList =
      Text.lines a.toList ++ (Text.lines blanks.toList ++ Text.lines b.toList) := by
    rw [String.toList_append, Text.lines_append_of_newline hend.newline, String.toList_append,
      Text.lines_append_of_newline hblank.newline]
  -- blank lines are at least one
  have hsome : (Text.lines blanks.toList).isEmpty = false := by
    have hne : blanks.toList ≠ [] := by
      intro h
      have := hblank.newline
      rw [h] at this
      cases this
    exact List.isEmpty_eq_false_iff.mpr (Text.lines_ne_nil hne)
  refine (agree_formatChars_append hcs hend (fun _ => hblank.trim_eq_nil) hstart
    hlines).map fun tb t ht => ?_
  rw [ht, hsome, String.ofList_append, String.ofList_append]
  cases endsInOpener line <;> rfl

/-! ## Ends of texts -/

/-- A character that is not white space ends no line. -/
theorem ne_newline_of_isBlank {c : Char} (hc : Text.isBlank c = false) : c ≠ '\n' ∧ c ≠ '\r' :=
  ⟨fun e => (ne_of_isBlank (show Text.isBlank '\n' = true from rfl) hc) e.symm,
    fun e => (ne_of_isBlank (show Text.isBlank '\r' = true from rfl) hc) e.symm⟩

/-- A text that ends in a character and the end of a line. -/
theorem exists_endsIn (front : List Char) {c : Char} (hc : Text.isBlank c = false) :
    ∃ line, EndsIn (front ++ [c, '\n']) (line ++ [c]) := by
  obtain ⟨hn, hr⟩ := ne_newline_of_isBlank hc
  -- the last line starts behind the last line feed in front of it
  have hsplit : ∃ before line, front = before ++ line ∧ '\n' ∉ line ∧
      (before = [] ∨ before.getLast? = some '\n') := by
    induction front using Text.line_induction with
    | nil => exact ⟨[], [], rfl, by simp, .inl rfl⟩
    | last l hne hl => exact ⟨[], l, rfl, hl, .inl rfl⟩
    | line l s hl ih =>
      obtain ⟨before, line, rfl, hline, hbefore⟩ := ih
      refine ⟨l ++ '\n' :: before, line, by simp, hline, .inr ?_⟩
      obtain rfl | hbefore := hbefore
      · simp
      · rw [List.getLast?_append, List.getLast?_cons, hbefore]
        rfl
  obtain ⟨before, line, rfl, hline, hbefore⟩ := hsplit
  have hisLine : Text.IsLine (line ++ [c]) := by
    refine ⟨by simp [hline, Ne.symm hn], ?_⟩
    rw [List.getLast?_concat]
    simpa using hr
  have hlast : Text.lines (line ++ [c, '\n']) = [line ++ [c]] := by
    have := Text.lines_append hisLine []
    rwa [List.append_assoc] at this
  have hlines : Text.lines (before ++ (line ++ [c, '\n'])) =
      Text.lines before ++ [line ++ [c]] := by
    obtain rfl | hbefore := hbefore
    · exact hlast
    · rw [Text.lines_append_of_newline hbefore, hlast]
  refine ⟨line, ?_, ?_, ?_⟩
  · simp
  · rw [List.append_assoc, hlines, List.getLast?_concat]
  · intro h
    rw [Text.trim_eq_nil_iff.mp h c (by simp)] at hc
    cases hc

/-- A line that ends in a character other than white space. -/
theorem endsInOpener_append {line : List Char} {c : Char} (hc : Text.isBlank c = false) :
    endsInOpener (line ++ [c]) = (Bracket.ofOpening? c).isSome := by
  rw [endsInOpener, Text.trimEnd_eq_self, List.getLast?_concat]
  · rfl
  · rw [List.getLast?_concat]
    rintro d ⟨⟩
    exact hc

/-- A text that starts with a character other than white space. -/
theorem startsInText_cons {c : Char} (hc : Text.isBlank c = false) (cs : List Char) :
    StartsInText (c :: cs) := by
  obtain ⟨hn, hr⟩ := ne_newline_of_isBlank hc
  have hread : ∃ line rest, Text.lines (c :: cs) = (c :: line) :: rest := by
    rw [Text.lines_cons hn fun e => absurd e hr]
    cases Text.lines cs with
    | nil => exact ⟨[], [], rfl⟩
    | cons line rest => exact ⟨line, rest, rfl⟩
  obtain ⟨line, rest, hlines⟩ := hread
  refine ⟨c :: line, by rw [hlines]; rfl, fun h => ?_⟩
  rw [Text.trim_eq_nil_iff.mp h c List.mem_cons_self] at hc
  cases hc

end Promptwright.Script
