import Promptwright.Proofs.Script.Acceptance

/-!
# Paragraphs

Formatting forgets how a script is laid out.  What it keeps of the layout are the paragraphs: the
trimmed lines that follow each other without a blank line in between.  How far lines are indented,
how many blank lines stand between two paragraphs or at the ends of the script, and so which numbers
the lines have, does not matter.  Two runs over scripts with the same paragraphs go side by side,
from one line that is not blank to the next one.

## Key results

- `spaced_paragraphs`: lines that are not blank, one by one, against paragraphs
- `agree_formatLine`, `agree_formatLines`: two runs side by side, for one line and for all of them
- `format_agree_of_paragraphs`: scripts with the same paragraphs are formatted alike
-/

namespace Promptwright.Script

/-! ## Paragraphs and their lines -/

/-- The paragraphs of a script: trimmed lines between blank ones. -/
def paragraphs (ls : List (List Char)) : List (List (List Char)) :=
  ((ls.map Text.trim).splitOnP List.isEmpty).filter fun p => !p.isEmpty

example : paragraphs (Text.lines "\n a\n\tb \n  \n\nc".toList) = [[['a'], ['b']], [['c']]] := by
  decide

/-- The trimmed lines that are not blank, each with whether it starts a paragraph.  The first one
does if a blank line stands in front of it or a `gap` is given. -/
def spaced : Bool → List (List Char) → List (Bool × List Char)
  | _, [] => []
  | gap, line :: ls =>
    if Text.trim line = [] then spaced true ls else (gap, Text.trim line) :: spaced false ls

/-- The lines of a paragraph, the first of which starts it. -/
def starting : List (List Char) → List (Bool × List Char)
  | [] => []
  | line :: ls => (true, line) :: ls.map (false, ·)

/-- Lines that are not blank, where the first of the lines that are cut may go on with a paragraph.
-/
theorem spaced_splitOnP {ls p : List (List Char)} {ps : List (List (List Char))}
    (h : (ls.map Text.trim).splitOnP List.isEmpty = p :: ps) :
    spaced false ls = p.map (false, ·) ++ ps.flatMap starting ∧
      spaced true ls = (p :: ps).flatMap starting := by
  induction ls generalizing p ps with
  | nil =>
    cases h
    exact ⟨rfl, rfl⟩
  | cons line ls ih =>
    obtain ⟨q, qs, hq⟩ := List.exists_cons_of_ne_nil
      (List.splitOnP_ne_nil List.isEmpty (ls.map Text.trim))
    rw [List.map_cons, List.splitOnP_cons_eq_if_modifyHead, hq] at h
    by_cases hline : Text.trim line = []
    · -- the paragraph in front of a blank line is empty
      rw [hline, if_pos List.isEmpty_nil] at h
      cases h
      simp only [spaced, hline, if_true]
      exact ⟨(ih hq).2, (ih hq).2⟩
    · rw [if_neg (by simpa using hline), List.modifyHead_cons] at h
      cases h
      simp only [spaced, hline, if_false, (ih hq).1]
      exact ⟨rfl, rfl⟩

/-- The lines that are not blank are those of the paragraphs. -/
theorem spaced_paragraphs (ls : List (List Char)) :
    spaced true ls = (paragraphs ls).flatMap starting := by
  obtain ⟨p, ps, h⟩ := List.exists_cons_of_ne_nil
    (List.splitOnP_ne_nil List.isEmpty (ls.map Text.trim))
  rw [paragraphs, h, (spaced_splitOnP h).2]
  -- paragraphs without lines add none
  induction p :: ps with
  | nil => rfl
  | cons q qs ih =>
    rw [List.flatMap_cons, ih]
    cases q <;> rfl

/-- Where there is no line that is not blank. -/
theorem blank_of_spaced_eq_nil {gap : Bool} {ls : List (List Char)} (h : spaced gap ls = []) :
    ∀ line ∈ ls, Text.trim line = [] := by
  induction ls generalizing gap with
  | nil => simp
  | cons line ls ih =>
    rw [spaced] at h
    split at h
    · next hline => exact List.forall_mem_cons.mpr ⟨hline, ih h⟩
    · cases h

/-- The first line that is not blank stands behind blank ones. -/
theorem exists_of_spaced_eq_cons {gap start : Bool} {text : List Char} {ls : List (List Char)}
    {more : List (Bool × List Char)} (h : spaced gap ls = (start, text) :: more) :
    ∃ blanks line rest, ls = blanks ++ line :: rest ∧ (∀ b ∈ blanks, Text.trim b = []) ∧
      Text.trim line ≠ [] ∧ Text.trim line = text ∧ (gap || !blanks.isEmpty) = start ∧
      spaced false rest = more := by
  induction ls generalizing gap with
  | nil => cases h
  | cons line ls ih =>
    rw [spaced] at h
    -- a blank line leaves a gap in front of what follows
    split at h
    · next hline =>
      obtain ⟨blanks, line', rest, rfl, hblanks, hne, htext, hstart, hmore⟩ := ih h
      refine ⟨line :: blanks, line', rest, rfl, List.forall_mem_cons.mpr ⟨hline, hblanks⟩, hne,
        htext, ?_, hmore⟩
      rw [← hstart]
      simp
    · next hline =>
      cases h
      exact ⟨[], line, ls, rfl, by simp, hline, rfl, by simp, rfl⟩

/-! ## Lines outside template literals -/

/-- No line starts or ends inside a template literal. -/
def Untemplated : Mode → List (List Char) → Prop
  | mode, [] => mode ≠ .template
  | mode, line :: ls => mode ≠ .template ∧ Untemplated (lex mode line).2 ls

/-- The first line does not start inside a template literal. -/
theorem Untemplated.mode_ne {mode : Mode} {ls : List (List Char)} (h : Untemplated mode ls) :
    mode ≠ .template := by
  cases ls with
  | nil => exact h
  | cons line ls => exact h.1

/-- Blank lines end where they start. -/
theorem Untemplated.of_blank_append {mode : Mode} {blanks ls : List (List Char)}
    (hblanks : ∀ b ∈ blanks, Text.trim b = []) (h : Untemplated mode (blanks ++ ls)) :
    Untemplated mode ls := by
  induction blanks with
  | nil => exact h
  | cons b blanks ih =>
    obtain ⟨hb, hblanks⟩ := List.forall_mem_cons.mp hblanks
    have hmode : (lex mode b).2 = mode := by rw [← mode_lex_trim, hb, lex]
    obtain ⟨-, h⟩ := h
    rw [hmode] at h
    exact ih hblanks h

/-- The lines of a text without template literals. -/
theorem untemplated_lines (text : List Char) {mode : Mode} (hm : mode ≠ .template)
    (h : ∀ c, .template c ∉ lexemesFrom mode.place text) :
    Untemplated mode (Text.lines text) := by
  -- without a template literal on a line, the next one does not start in one
  induction text using Text.line_induction generalizing mode with
  | nil => exact hm
  | last line hne hn =>
    rw [lexemesFrom_last hn] at h
    rw [Text.lines_last hn hne]
    exact ⟨hm, mode_lex_ne_template hm fun c hc => h c (List.mem_append_left _ hc)⟩
  | line line rest hn ih =>
    rw [lexemesFrom_append_newline hn] at h
    obtain ⟨raw, hraw, hread⟩ := exists_lines_nest hn rest
    have hmode : (lex mode line).2 ≠ .template :=
      mode_lex_ne_template hm fun c hc => h c (List.mem_append_left _ hc)
    have hrest := ih hmode fun c hc =>
      h c (List.mem_append_right _ (List.mem_cons_of_mem _ hc))
    rw [hraw, Untemplated, ← (hread mode).1]
    exact ⟨hm, hrest⟩

/-! ## Two runs side by side -/

/-- Layouts in two runs that have got to the same place in the same paragraphs.  A blank line is
pending in both if there is a `gap`, unless nothing has been written. -/
structure Aligned (gap : Bool) (number number' : Nat) (l l' : Layout) : Prop where
  mode : l'.mode = l.mode
  last : l'.last = l.last
  left : l.blank = (gap && l.last.isSome)
  right : l'.blank = (gap && l'.last.isSome)
  stack : Renumbered number number' l.stack l'.stack

/-- What two runs end with if they have written the same. -/
structure EndAlike (r r' : List (List Char) × Layout × Nat) : Prop where
  written : r'.1 = r.1
  mode : r'.2.1.mode = r.2.1.mode
  stack : r'.2.1.stack = [] ↔ r.2.1.stack = []

variable {gap : Bool} {number number' width : Nat} {l l' : Layout}

/-- Before the first line. -/
theorem aligned_start : Aligned true 1 1 {} {} where
  mode := rfl
  last := rfl
  left := rfl
  right := rfl
  stack := .nil 1 1

/-- Behind blank lines, there may be a gap. -/
theorem Aligned.blanks (h : Aligned gap number number' l l') (start : Bool) (k k' : Nat) :
    Aligned start (number + k) (number' + k') { l with blank := start && l.last.isSome }
      { l' with blank := start && l'.last.isSome } where
  mode := h.mode
  last := h.last
  left := rfl
  right := rfl
  stack := h.stack.mono (Nat.le_add_right ..) (Nat.le_add_right ..)

/-- Blank lines are passed over. -/
theorem formatLines_blank_append {blanks : List (List Char)} (hm : l.mode ≠ .template)
    (hgap : l.blank = (gap && l.last.isSome)) (hblanks : ∀ b ∈ blanks, Text.trim b = [])
    (width number : Nat) (rest : List (List Char)) :
    formatLines width number l (blanks ++ rest) = formatLines width (number + blanks.length)
      { l with blank := (gap || !blanks.isEmpty) && l.last.isSome } rest := by
  induction blanks generalizing l number gap with
  | nil =>
    simp only [List.isEmpty_nil, Bool.not_true, Bool.or_false, ← hgap]
    rfl
  | cons b blanks ih =>
    obtain ⟨hb, hblanks⟩ := List.forall_mem_cons.mp hblanks
    -- behind a blank line there is a gap if anything has been written
    have hgap' : ({ l with blank := l.last.isSome } : Layout).blank = (true && l.last.isSome) :=
      (Bool.true_and _).symm
    have hmap : ∀ x : Except FormatError (List (List Char) × Layout × Nat),
        x.map (fun r => ([] ++ r.1, r.2)) = x := fun x => by cases x <;> rfl
    rw [List.cons_append, formatLines_cons (formatLine_empty hm width number hb), hmap,
      ih (l := { l with blank := l.last.isSome }) hm hgap' hblanks, List.length_cons,
      Nat.add_assoc, Nat.add_comm 1]
    simp

/-- One line that is not blank. -/
theorem agree_formatLine (h : Aligned gap number number' l l') (hm : l.mode ≠ .template)
    {line line' : List Char} (hne : Text.trim line ≠ []) (htrim : Text.trim line' = Text.trim line)
    (width : Nat) :
    Agree (fun r r' => r'.1 = r.1 ∧ Aligned false (number + 1) (number' + 1) r.2 r'.2)
      (formatLine width number l line) (formatLine width number' l' line') := by
  have hindented : indented width l' (Text.trim line) = indented width l (Text.trim line) := by
    rw [indented, indented, h.mode, indentation_congr h.mode h.stack]
  have hwritten : writtenLines width l' (Text.trim line) =
      writtenLines width l (Text.trim line) := by
    rw [writtenLines, writtenLines, keepsBlank, keepsBlank, Layout.afterOpener, Layout.afterOpener,
      h.left, h.right, h.last, hindented]
  rw [formatLine_text hm width number hne,
    formatLine_text (h.mode ▸ hm) width number' (htrim ▸ hne), htrim, h.mode, hindented, hwritten,
    h.last]
  exact (h.stack.nest _).map fun stack stack' hstack =>
    ⟨rfl, { mode := rfl, last := rfl, left := rfl, right := rfl, stack := hstack }⟩

/-- Two runs over lines that are the same but for blank ones. -/
theorem agree_formatLines {raws raws' : List (List Char)} {more : List (Bool × List Char)}
    (h : Aligned gap number number' l l') (hraws : spaced gap raws = more)
    (hraws' : spaced gap raws' = more) (huntemplated : Untemplated l.mode raws) (width : Nat) :
    Agree EndAlike (formatLines width number l raws) (formatLines width number' l' raws') := by
  -- the induction is on the lines that are not blank, as these are the same for both
  induction more generalizing gap number number' l l' raws raws' with
  | nil =>
    have hm := huntemplated.mode_ne
    have hread := formatLines_blank_append hm h.left (blank_of_spaced_eq_nil hraws) width number []
    have hread' := formatLines_blank_append (h.mode ▸ hm) h.right (blank_of_spaced_eq_nil hraws')
      width number' []
    rw [List.append_nil] at hread hread'
    rw [hread, hread']
    obtain ⟨f, hstack, -⟩ := h.stack
    exact .ok ⟨rfl, h.mode, by rw [hstack]; exact List.map_eq_nil_iff⟩
  | cons x more ih =>
    obtain ⟨start, text⟩ := x
    obtain ⟨blanks, line, rest, rfl, hblanks, hne, htext, hstart, hrest⟩ :=
      exists_of_spaced_eq_cons hraws
    obtain ⟨blanks', line', rest', rfl, hblanks', -, htext', hstart', hrest'⟩ :=
      exists_of_spaced_eq_cons hraws'
    have hm := huntemplated.mode_ne
    rw [formatLines_blank_append hm h.left hblanks,
      formatLines_blank_append (h.mode ▸ hm) h.right hblanks', hstart, hstart',
      formatLines_cons_eq_bind, formatLines_cons_eq_bind]
    obtain ⟨-, hafter⟩ := huntemplated.of_blank_append hblanks
    have hline := (agree_formatLine (h.blanks start blanks.length blanks'.length) hm hne
      (htext'.trans htext.symm) width).imp_of_eq_ok fun r r' hr hrr =>
        And.intro hrr (mode_formatLine hr)
    -- the rest starts where the line ends
    refine (hline.mapError fun _ _ => id).bind fun r r' ⟨⟨hwritten, haligned⟩, hmode⟩ => ?_
    refine (ih haligned hrest hrest' (hmode ▸ hafter)).map fun s s' hs => ⟨?_, hs.mode, hs.stack⟩
    rw [hwritten, hs.written]

/-- Runs that have written the same, the other way round. -/
theorem EndAlike.symm {r r' : List (List Char) × Layout × Nat} (h : EndAlike r r') :
    EndAlike r' r :=
  ⟨h.written.symm, h.mode.symm, h.stack.symm⟩

/-- A run that has written the same as one that is accepted is accepted, too. -/
theorem formatChars_eq_ok_of_agree {source source' target : List Char}
    (h : Agree EndAlike (formatLines width 1 {} (Text.lines source))
      (formatLines width 1 {} (Text.lines source')))
    (htarget : formatChars width source = .ok target) : formatChars width source' = .ok target := by
  obtain ⟨written, l, last, hlines, hm, hs, rfl⟩ := formatChars_eq_ok.mp htarget
  obtain ⟨⟨written', l', last'⟩, hlines', hsame⟩ := h.exists_eq_ok hlines
  exact formatChars_eq_ok.mpr ⟨written', l', last', hlines', hsame.mode.trans hm,
    hsame.stack.mpr hs, congrArg unlines hsame.written.symm⟩

/-- Scripts with the same paragraphs, one of which has no template literals, are formatted alike. -/
theorem format_agree_of_paragraphs {source source' : String}
    (htemplate : ∀ c, .template c ∉ lexemes source)
    (h : paragraphs (Text.lines source.toList) = paragraphs (Text.lines source'.toList))
    (width : Nat) : Agree Eq (format width source) (format width source') := by
  have hspaced : spaced true (Text.lines source'.toList) =
      spaced true (Text.lines source.toList) := by
    rw [spaced_paragraphs, spaced_paragraphs, h]
  have hlines := agree_formatLines aligned_start rfl hspaced
    (untemplated_lines source.toList nofun htemplate) width
  have hchars : Agree Eq (formatChars width source.toList) (formatChars width source'.toList) :=
    agree_of_ok (fun target htarget => ⟨target, formatChars_eq_ok_of_agree hlines htarget, rfl⟩)
      fun target htarget =>
        ⟨target, formatChars_eq_ok_of_agree (hlines.flip fun _ _ => EndAlike.symm) htarget⟩
  exact hchars.map fun _ _ => congrArg String.ofList

/-- A script with a comment of two lines and with brackets on two lines. -/
def tightCall : String := "f(\x7b\n/* a\n* b */\n\nc: [1,\n'2']\x7d)\n"

/-- The script with white space around its lines. -/
def wideCall : String :=
  "\n  f(\x7b \r\n\t/* a\r\n * b */\n  \n\n\nc: [1,\n\t'2']\x7d)\n\n"

/-- Both are formatted to the same script. -/
theorem format_agree_of_paragraphs_call :
    (∀ c, .template c ∉ lexemes tightCall) ∧
    paragraphs (Text.lines tightCall.toList) = paragraphs (Text.lines wideCall.toList) ∧
    Agree Eq (format 2 tightCall) (format 2 wideCall) ∧
    format 2 tightCall =
      .ok "f(\x7b\n  /* a\n   * b */\n\n  c: [1,\n    \"2\"]\x7d)\n" := by
  have htemplate : ∀ c, .template c ∉ lexemes tightCall := by
    have hplain : (lexemes tightCall).all Lexeme.isPlain = true := by decide
    intro c hc
    cases List.all_eq_true.mp hplain _ hc
  have hparagraphs : paragraphs (Text.lines tightCall.toList) =
      paragraphs (Text.lines wideCall.toList) := by decide
  exact ⟨htemplate, hparagraphs, format_agree_of_paragraphs htemplate hparagraphs 2, rfl⟩

end Promptwright.Script
