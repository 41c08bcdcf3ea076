import Promptwright.Proofs.Except
import Promptwright.Proofs.Script.Nesting

/-!
# What is written for a line

`formatLine` has three cases: a line inside a template literal, an empty line, and a line of
code or of a comment.  Each has an equation here, and lines are formatted one after the other.

## Key results

- `formatLine_template`, `formatLine_empty`, `formatLine_text`: the three cases
- `formatLine_eq_ok_iff`: what is written for a line that is accepted, and the layout behind it
- `formatLines_append`: lines are formatted one after the other
- `isLine_of_mem_formatLine`: what is written for a line are lines
- `formatChars_eq_ok`: when a script is accepted
-/

namespace Promptwright.Script

/-! ## One line -/

/-- The text of a line with its indentation. -/
def indented (width : Nat) (l : Layout) (line : List Char) : List Char :=
  indentation width l (lex l.mode line).1 ++ render (lex l.mode line).1

/-- Whether a blank line is kept in front of a line. -/
def keepsBlank (l : Layout) (line : List Char) : Bool :=
  l.blank && !startsWithCloser line && !l.afterOpener

/-- The lines written for a line that is not empty. -/
def writtenLines (width : Nat) (l : Layout) (line : List Char) : List (List Char) :=
  if keepsBlank l line then [[], indented width l line] else [indented width l line]

/-- Inside a template literal, only white space at the end of a line is lost. -/
theorem formatLine_template {l : Layout} (hm : l.mode = .template) (width number : Nat)
    (raw : List Char) :
    formatLine width number l raw =
      (nest number l.stack (lex .template raw).1).map fun stack =>
        ([Text.trimEnd raw],
          { l with
            mode := (lex .template raw).2, stack, last := lastMark (Text.trimEnd raw) l.last }) := by
  rw [formatLine, if_pos hm]
  rfl

/-- An empty line is left out, for the time being. -/
theorem formatLine_empty {l : Layout} (hm : l.mode ≠ .template) (width number : Nat)
    {raw : List Char} (h : Text.trim raw = []) :
    formatLine width number l raw = .ok ([], { l with blank := l.last.isSome }) := by
  rw [formatLine, if_neg hm, h]
  rfl

/-- Any other line is written anew, perhaps behind an empty one. -/
theorem formatLine_text {l : Layout} (hm : l.mode ≠ .template) (width number : Nat)
    {raw : List Char} (h : Text.trim raw ≠ []) :
    formatLine width number l raw =
      (nest number l.stack (lex l.mode (Text.trim raw)).1).map fun stack =>
        (writtenLines width l (Text.trim raw),
          { mode := (lex l.mode (Text.trim raw)).2, stack, blank := false,
            last := lastMark (indented width l (Text.trim raw)) l.last }) := by
  have he : ¬ (Text.trim raw).isEmpty = true := by simpa using h
  rw [formatLine, if_neg hm]
  simp only [he, if_false, Bool.false_eq_true]
  rfl

/-- What is written for a line that is accepted, and the layout behind it, one constructor for each
kind of line. -/
inductive Formatted (width number : Nat) (l : Layout) (raw : List Char) :
    List (List Char) → Layout → Prop
  | template {stack : List Open} (hm : l.mode = .template)
      (hs : nest number l.stack (lex .template raw).1 = .ok stack) :
      Formatted width number l raw [Text.trimEnd raw]
        { l with
          mode := (lex .template raw).2, stack, last := lastMark (Text.trimEnd raw) l.last }
  | empty (hm : l.mode ≠ .template) (ht : Text.trim raw = []) :
      Formatted width number l raw [] { l with blank := l.last.isSome }
  | text {stack : List Open} (hm : l.mode ≠ .template) (ht : Text.trim raw ≠ [])
      (hs : nest number l.stack (lex l.mode (Text.trim raw)).1 = .ok stack) :
      Formatted width number l raw (writtenLines width l (Text.trim raw))
        { mode := (lex l.mode (Text.trim raw)).2, stack, blank := false,
          last := lastMark (indented width l (Text.trim raw)) l.last }

/-- A line is accepted exactly if it is formatted in one of the three ways. -/
theorem formatLine_eq_ok_iff {width number : Nat} {l l' : Layout} {raw : List Char}
    {written : List (List Char)} :
    formatLine width number l raw = .ok (written, l') ↔
      Formatted width number l raw written l' := by
  constructor
  · intro h
    by_cases hm : l.mode = .template
    · rw [formatLine_template hm] at h
      obtain ⟨stack, hs, h⟩ := map_eq_ok h
      cases h
      exact .template hm hs
    by_cases ht : Text.trim raw = []
    · rw [formatLine_empty hm width number ht] at h
      cases h
      exact .empty hm ht
    · rw [formatLine_text hm width number ht] at h
      obtain ⟨stack, hs, h⟩ := map_eq_ok h
      cases h
      exact .text hm ht hs
  · intro h
    cases h with
    | template hm hs => rw [formatLine_template hm, hs]; rfl
    | empty hm ht => exact formatLine_empty hm width number ht
    | text hm ht hs => rw [formatLine_text hm width number ht, hs]; rfl

/-- Only what is left of a line when it is trimmed counts. -/
theorem formatLine_eq_of_trim_eq {l : Layout} (hm : l.mode ≠ .template) {line line' : List Char}
    (h : Text.trim line = Text.trim line') (width number : Nat) :
    formatLine width number l line = formatLine width number l line' := by
  by_cases ht : Text.trim line = []
  · rw [formatLine_empty hm width number ht, formatLine_empty hm width number (h ▸ ht)]
  · rw [formatLine_text hm width number ht, formatLine_text hm width number (h ▸ ht), h]

/-- A line is formatted as it is read, whether or not a carriage return stands before its end. -/
theorem exists_lines_formatLine {line : List Char} (hn : '\n' ∉ line) (rest : List Char) :
    ∃ raw, Text.lines (line ++ '\n' :: rest) = raw :: Text.lines rest ∧
      ∀ {l : Layout}, l.mode ≠ .template → ∀ width number,
        formatLine width number l raw = formatLine width number l line := by
  obtain ⟨raw, hraw, hline⟩ := Text.exists_lines_eq hn rest
  refine ⟨raw, hraw, fun hm width number => formatLine_eq_of_trim_eq hm ?_ width number⟩
  obtain rfl | rfl := hline
  · rfl
  · exact (Text.trim_append_blank raw (List.forall_mem_singleton.mpr (by decide))).symm

/-- The white space in front of a line, counted. -/
theorem indentation_eq_replicate (width : Nat) (l : Layout) (ts : List Token) :
    indentation width l ts = List.replicate (width *
      depth (if l.mode = .code then l.stack.drop (leadingClosers ts) else l.stack) +
      if l.mode = .comment ∧ (render ts).head? = some '*' then 1 else 0) ' ' := by
  rw [indentation, Nat.mul_comm, List.replicate_add]
  simp only [Bool.and_eq_true, decide_eq_true_eq, beq_iff_eq]
  congr 1
  split <;> rfl

/-- The indentation of a line consists of spaces. -/
theorem exists_indentation_eq (width : Nat) (l : Layout) (ts : List Token) :
    ∃ n, indentation width l ts = List.replicate n ' ' :=
  ⟨_, indentation_eq_replicate width l ts⟩

/-- The indentation of a line is white space. -/
theorem isBlank_of_mem_indentation (width : Nat) (l : Layout) (ts : List Token) :
    ∀ c ∈ indentation width l ts, Text.isBlank c = true := by
  intro c hc
  rw [indentation_eq_replicate] at hc
  rw [List.eq_of_mem_replicate hc]
  decide

/-- The white space in front of a line does not hang on how lines are numbered. -/
theorem indentation_congr {number number' : Nat} {l l' : Layout} (hmode : l'.mode = l.mode)
    (hstack : Renumbered number number' l.stack l'.stack) (width : Nat) (ts : List Token) :
    indentation width l' ts = indentation width l ts := by
  have hdepth : depth (if l.mode = .code then l'.stack.drop (leadingClosers ts) else l'.stack) =
      depth (if l.mode = .code then l.stack.drop (leadingClosers ts) else l.stack) := by
    split
    · exact hstack.depth_drop _
    · simpa using hstack.depth_drop 0
  simp only [indentation, hmode]
  rw [hdepth]

/-- Trimming an indented line gives its text. -/
theorem trim_indented {line : List Char} (h : Text.Tight line) (width : Nat) (l : Layout) :
    Text.trim (indented width l line) = render (lex l.mode line).1 := by
  obtain ⟨n, hn⟩ := exists_indentation_eq width l (lex l.mode line).1
  rw [indented, hn, Text.trim_spaces_append (tight_render_lex h l.mode)]

/-- An indented line ends like its text. -/
theorem getLast?_indented {line : List Char} (h : Text.Tight line) (width : Nat) (l : Layout) :
    (indented width l line).getLast? = (render (lex l.mode line).1).getLast? := by
  rw [indented, List.getLast?_append]
  cases hg : (render (lex l.mode line).1).getLast? with
  | none => exact absurd (List.getLast?_eq_none_iff.mp hg) (tight_render_lex h l.mode).ne_nil
  | some c => rfl

/-- The last mark of an indented line is the last character of its text. -/
theorem lastMark_indented {line : List Char} (h : Text.Tight line) (width : Nat) (l : Layout)
    (last : Option Char) :
    lastMark (indented width l line) last = (render (lex l.mode line).1).getLast? := by
  have ht := tight_render_lex h l.mode
  rw [lastMark, Text.trimEnd_eq_self (by rw [getLast?_indented h]; exact ht.last),
    getLast?_indented h]
  cases hg : (render (lex l.mode line).1).getLast? with
  | none => exact absurd (List.getLast?_eq_none_iff.mp hg) ht.ne_nil
  | some c => rfl

/-- An indented line is a line. -/
theorem isLine_indented {line : List Char} (h : Text.Tight line) (hn : '\n' ∉ line) (width : Nat)
    (l : Layout) : Text.IsLine (indented width l line) := by
  refine Text.isLine_of_last ?_ ?_
  · intro hc
    obtain ⟨n, hi⟩ := exists_indentation_eq width l (lex l.mode line).1
    rw [indented, hi, List.mem_append] at hc
    rcases hc with hc | hc
    · exact absurd (List.eq_of_mem_replicate hc) (by decide)
    · rcases mem_render hc with hc | hc
      · rw [flatMap_text_lex] at hc
        exact hn hc
      · exact absurd hc (by decide)
  · rw [getLast?_indented h]
    exact (tight_render_lex h l.mode).last

/-- What is written for a line that has no line feed are lines. -/
theorem isLine_of_mem_formatLine {width number : Nat} {l l' : Layout} {raw : List Char}
    {written : List (List Char)} (h : formatLine width number l raw = .ok (written, l'))
    (hraw : '\n' ∉ raw) : ∀ line ∈ written, Text.IsLine line := by
  -- a line of a template literal loses its last blanks, and a blank line is left out
  cases formatLine_eq_ok_iff.mp h with
  | template hm hs =>
    intro line hline
    rw [List.mem_singleton.mp hline]
    exact Text.isLine_of_last (fun hc => hraw (Text.mem_of_mem_trimEnd hc))
      (Text.isBlank_getLast?_trimEnd raw)
  | empty hm ht => simp
  | text hm ht hs =>
    have hi := isLine_indented (Text.tight_trim ht) (fun hc => hraw (Text.mem_of_mem_trim hc))
      width l
    intro line hline
    -- a blank line may come first
    unfold writtenLines at hline
    split at hline
    · rcases List.mem_cons.mp hline with rfl | hline
      · exact Text.isLine_nil
      · rwa [List.mem_singleton.mp hline]
    · rwa [List.mem_singleton.mp hline]

/-! ## Lines one after the other -/

/-- A single line. -/
theorem formatLines_singleton {width number : Nat} {l l' : Layout} {raw : List Char}
    {written : List (List Char)} (h : formatLine width number l raw = .ok (written, l')) :
    formatLines width number l [raw] = .ok (written, l', number) := by
  rw [formatLines, h]
  show Except.ok (written ++ [], l', number) = _
  rw [List.append_nil]

/-- A line and those after it. -/
theorem formatLines_cons {width number : Nat} {l l' : Layout} {raw : List Char}
    {written : List (List Char)} (h : formatLine width number l raw = .ok (written, l'))
    (rest : List (List Char)) :
    formatLines width number l (raw :: rest) =
      (formatLines width (number + 1) l' rest).map fun r => (written ++ r.1, r.2) := by
  rw [formatLines, h]
  show (formatLines width (number + 1) l' rest >>= fun r => pure (written ++ r.1, r.2.1, r.2.2)) = _
  cases formatLines width (number + 1) l' rest <;> rfl

/-- A line and those after it, whether or not the line is accepted. -/
theorem formatLines_cons_eq_bind (width number : Nat) (l : Layout) (raw : List Char)
    (rest : List (List Char)) :
    formatLines width number l (raw :: rest) = (do
      let p ← (formatLine width number l raw).mapError (FormatError.mk number)
      (formatLines width (number + 1) p.2 rest).map fun r => (p.1 ++ r.1, r.2)) := by
  cases h : formatLine width number l raw with
  | error fault =>
    rw [formatLines, h]
    rfl
  | ok p =>
    rw [formatLines_cons h]
    rfl

/-- The first line of lines that are accepted is accepted, and so are the others. -/
theorem formatLines_cons_eq_ok {width number : Nat} {l : Layout} {raw : List Char}
    {rest : List (List Char)} {r : List (List Char) × Layout × Nat}
    (h : formatLines width number l (raw :: rest) = .ok r) :
    ∃ written l' more, formatLine width number l raw = .ok (written, l') ∧
      formatLines width (number + 1) l' rest = .ok more ∧ r = (written ++ more.1, more.2) := by
  cases hl : formatLine width number l raw with
  | error e => rw [formatLines, hl] at h; cases h
  | ok p =>
    rw [formatLines_cons hl] at h
    obtain ⟨more, hmore, rfl⟩ := map_eq_ok h
    exact ⟨p.1, p.2, more, rfl, hmore, rfl⟩

/-- Lines are formatted one after the other. -/
theorem formatLines_append {width number : Nat} {l l' : Layout} {xs : List (List Char)}
    {written : List (List Char)} {last : Nat}
    (h : formatLines width number l xs = .ok (written, l', last)) (ys : List (List Char)) :
    formatLines width number l (xs ++ ys) =
      (formatLines width (number + xs.length) l' ys).map fun r => (written ++ r.1, r.2) := by
  induction xs generalizing number l written with
  | nil =>
    rw [formatLines] at h
    cases h
    rw [List.nil_append, List.length_nil, Nat.add_zero]
    cases formatLines width number l' ys <;> rfl
  | cons x xs ih =>
    obtain ⟨w, l₁, more, hx, hxs, hr⟩ := formatLines_cons_eq_ok h
    obtain ⟨more, l₂, last'⟩ := more
    cases hr
    rw [List.cons_append, formatLines_cons hx, ih hxs, List.length_cons,
      show number + 1 + xs.length = number + (xs.length + 1) from by omega]
    cases formatLines width (number + (xs.length + 1)) l' ys with
    | error e => rfl
    | ok r => exact congrArg Except.ok (Prod.ext (List.append_assoc ..).symm rfl)

/-! ## Scripts -/

/-- Lines one after the other, with their ends. -/
theorem unlines_append (ls ms : List (List Char)) : unlines (ls ++ ms) = unlines ls ++ unlines ms :=
  List.flatMap_append

/-- A script may end where nothing is open. -/
theorem finish_eq_ok {l : Layout} : l.finish = .ok () ↔ l.mode = .code ∧ l.stack = [] := by
  unfold Layout.finish
  split <;> simp_all

/-- When a script is accepted. -/
theorem formatChars_eq_ok {width : Nat} {source target : List Char} :
    formatChars width source = .ok target ↔
      ∃ written l last, formatLines width 1 {} (Text.lines source) = .ok (written, l, last) ∧
        l.mode = .code ∧ l.stack = [] ∧ target = unlines written := by
  rw [formatChars]
  constructor
  · intro h
    obtain ⟨⟨written, l, last⟩, hlines, h⟩ := bind_eq_ok h
    dsimp only at h
    split at h
    next hf =>
      obtain ⟨hm, hs⟩ := finish_eq_ok.mp hf
      cases h
      exact ⟨written, l, last, hlines, hm, hs, rfl⟩
    next => cases h
  · rintro ⟨written, l, last, hlines, hm, hs, rfl⟩
    simp only [hlines, bind, Except.bind, finish_eq_ok.mpr ⟨hm, hs⟩]
    rfl

end Promptwright.Script
