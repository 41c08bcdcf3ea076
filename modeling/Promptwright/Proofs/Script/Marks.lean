import Promptwright.Proofs.Script.Layout
import Promptwright.Proofs.Script.Lexemes

/-!
# Marks of a script

Whether a script is accepted hangs on its brackets and on the literals that are not closed on their
line.  These are the marks of the script, each with the line that it stands on, and they are read
off the lexemes of the whole script.  Formatting, which goes line by line, follows the marks: it has
the same open brackets after them, and where it fails in a line it fails at the mark that cannot be
followed.

## Key results

- `foldlM_follow_line`: the marks of a line, against the tokens of the line
- `formatLines_stack`: the marks of a text, against its lines
- `mode_formatLines`: where formatting ends inside a comment or a template literal
-/

namespace Promptwright.Script

/-! ## Marks -/

/-- What decides whether a script is accepted. -/
inductive Mark
  | opening (o : Open)
  | closing (b : Bracket) (line : Nat)
  /-- A string literal that is not closed on its line. -/
  | unclosed (line : Nat)
deriving DecidableEq, Repr

/-- The line that a mark stands on. -/
def Mark.line : Mark → Nat
  | .opening o => o.line
  | .closing _ line => line
  | .unclosed line => line

/-- The mark that a lexeme of a line is.  A lexeme without text is the end of a script inside a
comment or a template literal, which is no mark. -/
def Lexeme.mark? (line : Nat) : Lexeme → Option Mark
  | .code c =>
    match codeToken c with
    | .opening b => some (.opening ⟨b, line⟩)
    | .closing b => some (.closing b line)
    | _ => none
  | .unclosed (_ :: _) => some (.unclosed line)
  | _ => none

/-- The marks among lexemes, the first of which stands on a given line. -/
def marksFrom : Nat → List Lexeme → List Mark
  | _, [] => []
  | line, .lineEnd :: xs => marksFrom (line + 1) xs
  | line, x :: xs => (x.mark? line).toList ++ marksFrom line xs

/-- The marks of a script.  Lines are counted from one. -/
def marks (script : String) : List Mark := marksFrom 1 (lexemes script)

example : marks "f(\n ')' /* ] */ \x7d\n'(" =
    [.opening ⟨.round, 1⟩, .closing .curly 2, .unclosed 3] := by decide

/-- The open brackets, the innermost first, after a mark. -/
def follow (stack : List Open) : Mark → Except FormatError (List Open)
  | .opening o => .ok (o :: stack)
  | .closing b line =>
    match stack with
    | [] => .error ⟨line, .unmatched b⟩
    | o :: stack => if o.bracket = b then .ok stack else .error ⟨line, .mismatch b o⟩
  | .unclosed line => .error ⟨line, .unclosedLiteral⟩

/-! ## One line -/

/-- The mark that a token of a line is. -/
def Token.mark? (line : Nat) : Token → Option Mark
  | .opening b => some (.opening ⟨b, line⟩)
  | .closing b => some (.closing b line)
  | .unclosed .. => some (.unclosed line)
  | _ => none

/-- Characters of comments and of template literals are no marks. -/
theorem marksFrom_map_append {f : Char → Lexeme} (hf : ∀ line c, (f c).mark? line = none)
    (hend : ∀ c, f c ≠ .lineEnd) (line : Nat) (text : List Char) (xs : List Lexeme) :
    marksFrom line (text.map f ++ xs) = marksFrom line xs := by
  induction text with
  | nil => rfl
  | cons c text ih =>
    rw [List.map_cons, List.cons_append, marksFrom, hf, ih]
    · rfl
    · exact hend c

/-- The lexemes of a token hold its mark. -/
theorem marksFrom_lexemes_append {t : Token} (hchar : ∀ c, t = .char c → codeToken c = .char c)
    (line : Nat) (xs : List Lexeme) :
    marksFrom line (t.lexemes ++ xs) = (t.mark? line).toList ++ marksFrom line xs := by
  cases t with
  | char c => simp [Token.lexemes, marksFrom, Lexeme.mark?, Token.mark?, hchar c rfl]
  | opening b => simp [Token.lexemes, marksFrom, Lexeme.mark?, Token.mark?]
  | closing b => simp [Token.lexemes, marksFrom, Lexeme.mark?, Token.mark?]
  | literal single body => simp [Token.lexemes, marksFrom, Lexeme.mark?, Token.mark?]
  | unclosed single body => simp [Token.lexemes, marksFrom, Lexeme.mark?, Token.mark?]
  | lineComment text =>
    exact marksFrom_map_append (f := .comment) (fun _ _ => rfl) (fun _ h => by cases h) line text xs
  | comment text =>
    exact marksFrom_map_append (f := .comment) (fun _ _ => rfl) (fun _ h => by cases h) line text xs
  | template text =>
    exact marksFrom_map_append (f := .template) (fun _ _ => rfl) (fun _ h => by cases h) line text
      xs

/-- A mark is followed as the token is that it belongs to. -/
theorem foldlM_follow_mark? (line : Nat) (stack : List Open) (t : Token) :
    (t.mark? line).toList.foldlM follow stack =
      (step line stack t).mapError (FormatError.mk line) := by
  cases t with
  | closing b =>
    cases stack with
    | nil => rfl
    | cons o stack =>
      simp only [Token.mark?, Option.toList_some, List.foldlM_cons, List.foldlM_nil, follow, step]
      split <;> rfl
  | _ => rfl

/-- The marks of a line are followed as its tokens are. -/
theorem foldlM_follow_tokens {ts : List Token} (hchar : ∀ c, .char c ∈ ts → codeToken c = .char c)
    (line : Nat) (stack : List Open) (xs : List Lexeme) :
    (marksFrom line (ts.flatMap Token.lexemes ++ xs)).foldlM follow stack = (do
      let stack ← (nest line stack ts).mapError (FormatError.mk line)
      (marksFrom line xs).foldlM follow stack) := by
  induction ts generalizing stack with
  | nil => rfl
  | cons t ts ih =>
    have ih := ih fun c hc => hchar c (List.mem_cons_of_mem t hc)
    rw [List.flatMap_cons, List.append_assoc,
      marksFrom_lexemes_append fun c hc => hchar c (hc ▸ List.mem_cons_self), List.foldlM_append,
      foldlM_follow_mark?, nest, List.foldlM_cons]
    cases step line stack t with
    | error e => rfl
    | ok s => exact ih s

/-- The marks of a line are followed as its tokens are. -/
theorem foldlM_follow_line (mode : Mode) (text : List Char) (line : Nat) (stack : List Open)
    (xs : List Lexeme) :
    (marksFrom line (lineLexemes mode text ++ xs)).foldlM follow stack = (do
      let stack ← (nest line stack (lex mode text).1).mapError (FormatError.mk line)
      (marksFrom line xs).foldlM follow stack) :=
  foldlM_follow_tokens (fun _ => codeToken_of_mem_lex) line stack xs

/-! ## What formatting a line leaves open -/

/-- The brackets that are open after a line are those that its tokens leave open. -/
theorem formatLine_stack (width number : Nat) (l : Layout) (raw : List Char) :
    (formatLine width number l raw).map (fun r => r.2.stack) =
      nest number l.stack (lex l.mode raw).1 := by
  by_cases hm : l.mode = .template
  · rw [formatLine_template hm, hm]
    cases nest number l.stack (lex .template raw).1 <;> rfl
  rw [← nest_lex_trim]
  by_cases ht : Text.trim raw = []
  · rw [formatLine_empty hm width number ht, ht, lex]
    rfl
  · rw [formatLine_text hm width number ht]
    cases nest number l.stack (lex l.mode (Text.trim raw)).1 <;> rfl

/-- The mode after a line is the one in which its tokens end. -/
theorem mode_formatLine {width number : Nat} {l : Layout} {raw : List Char}
    {r : List (List Char) × Layout} (h : formatLine width number l raw = .ok r) :
    r.2.mode = (lex l.mode raw).2 := by
  obtain ⟨written, l'⟩ := r
  cases formatLine_eq_ok_iff.mp h with
  | template hm hs => rw [hm]
  | empty hm ht => rw [← mode_lex_trim, ht, lex]
  | text hm ht hs => exact mode_lex_trim l.mode raw

/-- A line that cannot be formatted has the fault of its tokens. -/
theorem formatLine_eq_error {width number : Nat} {l : Layout} {raw : List Char} {fault : Fault}
    (h : formatLine width number l raw = .error fault) :
    nest number l.stack (lex l.mode raw).1 = .error fault := by
  rw [← formatLine_stack width, h]
  rfl

/-! ## All lines -/

/-- A line and those after it, as far as open brackets go. -/
theorem formatLines_cons_stack (width number : Nat) (l : Layout) (raw : List Char)
    (rest : List (List Char)) :
    (formatLines width number l (raw :: rest)).map (fun r => r.2.1.stack) = (do
      let r ← (formatLine width number l raw).mapError (FormatError.mk number)
      (formatLines width (number + 1) r.2 rest).map fun r => r.2.1.stack) := by
  rw [formatLines_cons_eq_bind]
  cases formatLine width number l raw with
  | error fault => rfl
  | ok r =>
    show Except.map _ (Except.map _ (formatLines width (number + 1) r.2 rest)) = Except.map _ _
    cases formatLines width (number + 1) r.2 rest <;> rfl

/-- A line is read as it is written, whether or not a carriage return stands before its end. -/
theorem exists_lines_nest {line : List Char} (hn : '\n' ∉ line) (rest : List Char) :
    ∃ raw, Text.lines (line ++ '\n' :: rest) = raw :: Text.lines rest ∧ ∀ mode,
      (lex mode line).2 = (lex mode raw).2 ∧
      ∀ number stack, nest number stack (lex mode line).1 = nest number stack (lex mode raw).1 := by
  obtain ⟨raw, hraw, hline⟩ := Text.exists_lines_eq hn rest
  refine ⟨raw, hraw, fun mode => ?_⟩
  obtain rfl | rfl := hline
  · exact ⟨rfl, fun _ _ => rfl⟩
  · have hreturn : ∀ c ∈ ['\r'], Text.isBlank c = true :=
      List.forall_mem_singleton.mpr (by decide)
    obtain ⟨hmode, htrailed⟩ := lex_append_blank mode raw hreturn
    exact ⟨hmode, htrailed.nest_eq⟩

/-- No marks are left where a text ends. -/
@[simp] theorem marksFrom_lexemesFrom_nil (mode : Mode) (line : Nat) :
    marksFrom line (lexemesFrom mode.place []) = [] := by
  cases mode <;> rfl

/-- A line and those after it follow the marks if those after it do. -/
theorem formatLines_cons_follow {width number : Nat} {l : Layout} {raw line : List Char}
    {rest : List (List Char)} (after : Mode → List Lexeme)
    (hmode : (lex l.mode line).2 = (lex l.mode raw).2)
    (hnest : nest number l.stack (lex l.mode line).1 = nest number l.stack (lex l.mode raw).1)
    (hrest : ∀ l' : Layout, (formatLines width (number + 1) l' rest).map (fun r => r.2.1.stack) =
      (marksFrom number (after l'.mode)).foldlM follow l'.stack) :
    (formatLines width number l (raw :: rest)).map (fun r => r.2.1.stack) =
      (marksFrom number (lineLexemes l.mode line ++ after (lex l.mode line).2)).foldlM follow
        l.stack := by
  rw [foldlM_follow_line, formatLines_cons_stack, hmode, hnest]
  cases h : formatLine width number l raw with
  | error fault =>
    rw [formatLine_eq_error h]
    rfl
  | ok r =>
    rw [← formatLine_stack width, h, ← mode_formatLine h]
    exact hrest r.2

/-- Formatting a text follows its marks. -/
theorem formatLines_stack (width : Nat) (text : List Char) (number : Nat) (l : Layout) :
    (formatLines width number l (Text.lines text)).map (fun r => r.2.1.stack) =
      (marksFrom number (lexemesFrom l.mode.place text)).foldlM follow l.stack := by
  -- line by line, since formatting and reading share the mode in which a line starts
  induction text using Text.line_induction generalizing number l with
  | nil =>
    rw [marksFrom_lexemesFrom_nil]
    rfl
  | last line hne hn =>
    rw [Text.lines_last hn hne, lexemesFrom_last hn]
    refine formatLines_cons_follow (fun mode => lexemesFrom mode.place []) rfl rfl fun l' => ?_
    rw [marksFrom_lexemesFrom_nil]
    rfl
  | line line rest hn ih =>
    obtain ⟨raw, hraw, hread⟩ := exists_lines_nest hn rest
    obtain ⟨hmode, hnest⟩ := hread l.mode
    rw [hraw, lexemesFrom_append_newline hn]
    refine formatLines_cons_follow (fun mode => .lineEnd :: lexemesFrom mode.place rest)
      hmode (hnest _ _) fun l' => ?_
    rw [marksFrom]
    exact ih (number + 1) l'

/-! ## Where a text ends -/

/-- The lexemes of a line hold no end of a script. -/
theorem unclosed_nil_not_mem_lineLexemes (mode : Mode) (line : List Char) :
    .unclosed [] ∉ lineLexemes mode line := by
  intro h
  obtain ⟨t, -, ht⟩ := List.mem_flatMap.mp h
  cases t <;> simp [Token.lexemes] at ht

/-- Only in code may a text end. -/
theorem unclosed_nil_mem_lexemesFrom_nil (mode : Mode) :
    .unclosed [] ∈ lexemesFrom mode.place [] ↔ mode ≠ .code := by
  cases mode <;> simp [Mode.place, lexemesFrom]

/-- Formatting ends in code unless the text ends inside a comment or a template literal. -/
theorem mode_formatLines (text : List Char) {width number : Nat} {l : Layout}
    {r : List (List Char) × Layout × Nat}
    (h : formatLines width number l (Text.lines text) = .ok r) :
    .unclosed [] ∈ lexemesFrom l.mode.place text ↔ r.2.1.mode ≠ .code := by
  induction text using Text.line_induction generalizing number l r with
  | nil =>
    cases h
    exact unclosed_nil_mem_lexemesFrom_nil l.mode
  -- the text ends where its last line does
  | last line hne hn =>
    rw [Text.lines_last hn hne] at h
    obtain ⟨written, l', more, hline, hmore, rfl⟩ := formatLines_cons_eq_ok h
    cases hmore
    rw [lexemesFrom_last hn, List.mem_append, or_iff_right (unclosed_nil_not_mem_lineLexemes _ _),
      unclosed_nil_mem_lexemesFrom_nil, ← mode_formatLine hline]
  | line line rest hn ih =>
    obtain ⟨raw, hraw, hread⟩ := exists_lines_nest hn rest
    rw [hraw] at h
    obtain ⟨written, l', more, hline, hmore, rfl⟩ := formatLines_cons_eq_ok h
    have hmode : (lex l.mode line).2 = l'.mode := by
      rw [(hread l.mode).1, ← mode_formatLine hline]
    rw [lexemesFrom_append_newline hn, List.mem_append,
      or_iff_right (unclosed_nil_not_mem_lineLexemes _ _), List.mem_cons, or_iff_right nofun, hmode]
    exact ih (r := more) hmore

/-- Formatting ends on the last line. -/
theorem number_formatLines {width number : Nat} {l : Layout} {raws : List (List Char)}
    {r : List (List Char) × Layout × Nat} (hnumber : 0 < number)
    (h : formatLines width number l raws = .ok r) : r.2.2 + 1 = number + raws.length := by
  induction raws generalizing number l r with
  | nil =>
    cases h
    exact Nat.sub_add_cancel hnumber
  | cons raw raws ih =>
    obtain ⟨written, l', more, -, hmore, rfl⟩ := formatLines_cons_eq_ok h
    have hlast := ih (Nat.succ_pos number) hmore
    show more.2.2 + 1 = number + (raws.length + 1)
    omega

end Promptwright.Script
