import Mathlib.Data.List.Forall2
import Promptwright.Proofs.Script.Acceptance
import Promptwright.Proofs.Script.StringValue

/-!
# Formatting touches presentation only

`shownLines` reads a script as what it shows: its lexemes line by line, without white space at the
ends of the lines and without the lines that are empty then.  A formatted script shows the same
as its source, except that a literal may have other quotes and then bare apostrophes.

Scripts are read as `lexemes` reads them.  It knows string literals, comments and template literals;
everything else, regular expressions included, is code character by character.  A script with
template literals is left out here, as their lines may lose white space that counts.

## Key results

- `trimLexemes_lineLexemes`: white space at the ends of a line makes no difference
- `forall₂_sameAs_render`: what is written for a line shows the same
- `sameAs_line`, `sameAs_lines`: one line, and all lines
- `shownLines_format`: formatting touches presentation only
-/

namespace Promptwright.Script

/-! ## What a script shows -/

/-- Whether a lexeme is white space in code or in a comment. -/
def Lexeme.isBlank : Lexeme → Bool
  | .code c => Text.isBlank c
  | .comment c => Text.isBlank c
  | _ => false

/-- Lexemes without white space at their ends. -/
def trimLexemes (ls : List Lexeme) : List Lexeme :=
  ((ls.dropWhile Lexeme.isBlank).reverse.dropWhile Lexeme.isBlank).reverse

/-- What some lexemes show on the lines that are not empty. -/
def shown (ls : List Lexeme) : List (List Lexeme) :=
  ((ls.splitOnP (· == .lineEnd)).map trimLexemes).filter fun l => !l.isEmpty

/-- What a script shows on its lines. -/
def shownLines (script : String) : List (List Lexeme) := shown (lexemes script)

/-- Two lexemes that show the same: equal ones, and a literal between single quotes and one between
double quotes that has the same value, with bare apostrophes for escaped ones. -/
inductive Lexeme.SameAs : Lexeme → Lexeme → Prop
  | refl (x : Lexeme) : SameAs x x
  | requoted {b b' : List Char} (hq : '"' ∉ b) (h : Unescaped b b')
      (hv : stringUnits b = stringUnits b') : SameAs (.literal true b) (.literal false b')

/-- Lines that show the same. -/
abbrev SameLines : List (List Lexeme) → List (List Lexeme) → Prop :=
  List.Forall₂ (List.Forall₂ Lexeme.SameAs)

instance : Std.Refl Lexeme.SameAs := ⟨.refl⟩

instance : Std.Refl (List.Forall₂ Lexeme.SameAs) := ⟨List.forall₂_refl⟩

/-! ## Lines of lexemes -/

/-- The end of a line separates what is shown. -/
theorem shown_append_lineEnd (ls ms : List Lexeme) :
    shown (ls ++ .lineEnd :: ms) = shown ls ++ shown ms := by
  rw [shown, List.splitOnP_append_cons _ _ (by rfl), List.map_append, List.filter_append]
  rfl

/-- What a single line shows. -/
theorem shown_line {ls : List Lexeme} (h : .lineEnd ∉ ls) :
    shown ls = [trimLexemes ls].filter fun l => !l.isEmpty := by
  rw [shown, List.splitOnP_eq_singleton]
  · rfl
  · intro x hx
    have hne : x ≠ .lineEnd := fun e => h (e ▸ hx)
    simpa using hne

/-- No line end is read on a line. -/
theorem lineEnd_not_mem_lineLexemes (mode : Mode) (line : List Char) :
    .lineEnd ∉ lineLexemes mode line := by
  intro h
  obtain ⟨t, -, ht⟩ := List.mem_flatMap.mp h
  cases t <;> simp [Token.lexemes] at ht

/-- What lines with their ends show is what they show one by one. -/
theorem shown_linesLexemes_append (mode : Mode) (ls : List (List Char)) (ms : List Lexeme) :
    shown ((linesLexemes mode ls).1 ++ ms) = shown (linesLexemes mode ls).1 ++ shown ms := by
  induction ls generalizing mode with
  | nil => rfl
  | cons l ls ih =>
    rw [linesLexemes]
    simp only [List.append_assoc, List.cons_append]
    rw [shown_append_lineEnd, shown_append_lineEnd, ih, List.append_assoc]

/-! ## White space at the ends -/

/-- White space around lexemes is taken off. -/
theorem trimLexemes_blank {pre post : List Lexeme} (hpre : ∀ x ∈ pre, x.isBlank = true)
    (hpost : ∀ x ∈ post, x.isBlank = true) (ls : List Lexeme) :
    trimLexemes (pre ++ ls ++ post) = trimLexemes ls := by
  have hpost' : ∀ x ∈ post.reverse, x.isBlank = true := fun x hx => hpost x (List.mem_reverse.mp hx)
  rw [trimLexemes, trimLexemes, List.append_assoc, List.dropWhile_append_of_pos hpre,
    List.dropWhile_append]
  split
  next h =>
    -- nothing but white space is there
    have hls : ls.dropWhile Lexeme.isBlank = [] := List.isEmpty_iff.mp h
    rw [hls, List.dropWhile_eq_nil_iff.mpr hpost]
  next => rw [List.reverse_append, List.dropWhile_append_of_pos hpost']

/-- A lexeme that shows the same is white space if the other one is. -/
theorem Lexeme.SameAs.isBlank_eq {x y : Lexeme} (h : x.SameAs y) : x.isBlank = y.isBlank := by
  cases h <;> rfl

/-- Lexemes that show the same go on showing the same without white space in front of them. -/
theorem forall₂_dropWhile_isBlank {ls ms : List Lexeme} (h : List.Forall₂ Lexeme.SameAs ls ms) :
    List.Forall₂ Lexeme.SameAs (ls.dropWhile Lexeme.isBlank) (ms.dropWhile Lexeme.isBlank) := by
  induction h with
  | nil => exact .nil
  | @cons x y ls ms hxy h ih =>
    rw [List.dropWhile_cons, List.dropWhile_cons, hxy.isBlank_eq]
    split
    · exact ih
    · exact .cons hxy h

/-- The same without white space at both ends. -/
theorem forall₂_trimLexemes {ls ms : List Lexeme} (h : List.Forall₂ Lexeme.SameAs ls ms) :
    List.Forall₂ Lexeme.SameAs (trimLexemes ls) (trimLexemes ms) :=
  List.forall₂_reverse_iff.mpr (forall₂_dropWhile_isBlank
    (List.forall₂_reverse_iff.mpr (forall₂_dropWhile_isBlank h)))

/-- Lines that show the same, if they show anything. -/
theorem sameLines_of_trimLexemes {ls ms : List Lexeme} (hls : .lineEnd ∉ ls) (hms : .lineEnd ∉ ms)
    (h : List.Forall₂ Lexeme.SameAs (trimLexemes ls) (trimLexemes ms)) :
    SameLines (shown ls) (shown ms) := by
  rw [shown_line hls, shown_line hms]
  have hempty : ∀ a b : List Lexeme, List.Forall₂ Lexeme.SameAs a b →
      ((!a.isEmpty) = true ↔ (!b.isEmpty) = true) := by
    intro a b hab
    rw [isEmpty_eq_of_forall₂ hab]
  exact List.rel_filter hempty (.cons h .nil)

/-- A white space character as it is read in code or in a comment. -/
theorem isBlank_of_mem_blankToken {mode : Mode} (hm : mode ≠ .template) {ws : List Char}
    (h : ∀ c ∈ ws, Text.isBlank c = true) :
    ∀ x ∈ (ws.map (blankToken · mode)).flatMap Token.lexemes, x.isBlank = true := by
  intro x hx
  obtain ⟨t, ht, hx⟩ := List.mem_flatMap.mp hx
  obtain ⟨c, hc, rfl⟩ := List.mem_map.mp ht
  cases mode with
  | code =>
    obtain rfl := List.mem_singleton.mp hx
    exact h c hc
  | comment =>
    obtain rfl := List.mem_singleton.mp hx
    exact h c hc
  | template => exact absurd rfl hm

/-- White space in front of a line is white space in front of its lexemes. -/
theorem exists_lineLexemes_blank_append {mode : Mode} (hm : mode ≠ .template) {ws : List Char}
    (h : ∀ c ∈ ws, Text.isBlank c = true) (cs : List Char) :
    ∃ bs, (∀ x ∈ bs, x.isBlank = true) ∧
      lineLexemes mode (ws ++ cs) = bs ++ lineLexemes mode cs := by
  refine ⟨_, isBlank_of_mem_blankToken hm h, ?_⟩
  rw [lineLexemes, lex_blank_append mode h, List.flatMap_append]
  rfl

/-- White space behind a line takes no part of a template literal away. -/
theorem template_mem_of_trailed {ws : List Char} {r : List Token × Mode} {ts : List Token}
    (h : Trailed ws r ts) {c : Char} (hc : .template c ∈ r.1.flatMap Token.lexemes) :
    ∃ c, .template c ∈ ts.flatMap Token.lexemes := by
  induction h with
  | blank mode => cases hc
  | lineComment text => simp [Token.lexemes] at hc
  | unclosed single b => simp [Token.lexemes] at hc
  | templatePair w hws => exact ⟨'\\', List.mem_append_left _ List.mem_cons_self⟩
  | push t _ ih =>
    rw [push, List.flatMap_cons] at hc
    obtain hc | hc := List.mem_append.mp hc
    · exact ⟨c, List.mem_append_left _ hc⟩
    · obtain ⟨d, hd⟩ := ih hc
      exact ⟨d, List.mem_append_right _ hd⟩

/-- Behind a line that is closed, white space is read as such. -/
theorem exists_lexemes_of_trailed {ws : List Char} {r : List Token × Mode} {ts : List Token}
    (h : Trailed ws r ts) (hws : ∀ c ∈ ws, Text.isBlank c = true) (hm : r.2 ≠ .template)
    (hplain : ∀ x ∈ r.1.flatMap Token.lexemes, x.isPlain = true) :
    ∃ bs, (∀ x ∈ bs, x.isBlank = true) ∧
      ts.flatMap Token.lexemes = r.1.flatMap Token.lexemes ++ bs := by
  induction h with
  | blank mode => exact ⟨_, isBlank_of_mem_blankToken hm hws, rfl⟩
  | lineComment text =>
    refine ⟨ws.map .comment, fun x hx => ?_, by simp [Token.lexemes]⟩
    obtain ⟨c, hc, rfl⟩ := List.mem_map.mp hx
    exact hws c hc
  | unclosed single b => simp [Token.lexemes, Lexeme.isPlain] at hplain
  | templatePair w hws => exact absurd rfl hm
  | @push t r ts _ ih =>
    rw [push, List.flatMap_cons] at hplain
    obtain ⟨bs, hbs, hts⟩ := ih hm fun x hx => hplain x (List.mem_append_right _ hx)
    exact ⟨bs, hbs, by rw [push, List.flatMap_cons, List.flatMap_cons, hts, List.append_assoc]⟩

/-- White space at the ends of a line that is closed does not show. -/
theorem trimLexemes_lineLexemes {mode : Mode} (hm : mode ≠ .template) {line : List Char}
    (hplain : ∀ x ∈ lineLexemes mode (Text.trim line), x.isPlain = true) :
    trimLexemes (lineLexemes mode line) = trimLexemes (lineLexemes mode (Text.trim line)) := by
  obtain ⟨pre, post, hline, hpre, hpost⟩ := Text.exists_eq_trim line
  have hm' : (lex mode (Text.trim line)).2 ≠ .template :=
    mode_lex_ne_template hm fun c hc => absurd (hplain _ hc) (by simp [Lexeme.isPlain])
  obtain ⟨bs, hbs, hbefore⟩ := exists_lineLexemes_blank_append hm hpre (Text.trim line ++ post)
  obtain ⟨bs', hbs', hbehind⟩ := exists_lexemes_of_trailed
    (lex_append_blank mode (Text.trim line) hpost).2 hpost hm' hplain
  have hsplit : lineLexemes mode line = bs ++ lineLexemes mode (Text.trim line) ++ bs' := by
    conv => lhs; rw [hline, List.append_assoc]
    rw [hbefore, List.append_assoc]
    exact congrArg _ hbehind
  rw [hsplit, trimLexemes_blank hbs hbs']

/-- What is part of a template literal in a line without the white space at its ends is so in the
whole line. -/
theorem template_not_mem_lineLexemes_trim {mode : Mode} (hm : mode ≠ .template) {line : List Char}
    (h : ∀ c, .template c ∉ lineLexemes mode line) (c : Char) :
    .template c ∉ lineLexemes mode (Text.trim line) := by
  intro hc
  obtain ⟨pre, post, hline, hpre, hpost⟩ := Text.exists_eq_trim line
  obtain ⟨d, hd⟩ := template_mem_of_trailed (lex_append_blank mode (Text.trim line) hpost).2 hc
  obtain ⟨bs, -, hbefore⟩ := exists_lineLexemes_blank_append hm hpre (Text.trim line ++ post)
  refine h d ?_
  rw [hline, List.append_assoc, hbefore]
  exact List.mem_append_right _ hd

/-! ## Quotes -/

/-- In a body, apostrophes are unescaped one by one. -/
theorem unescaped_unescapeApostrophes {b : List Char} (hb : Body '\'' b) :
    Unescaped b (unescapeApostrophes b) := by
  induction hb with
  | nil => exact .nil
  | @pair c b hb ih =>
    by_cases hc : c = '\''
    · subst hc
      rw [unescapeApostrophes]
      exact .apostrophe ih
    · -- the character behind the backslash does not escape the next one
      rw [unescapeApostrophes_cons (by simpa using hc),
        unescapeApostrophes_cons fun _ => hb.head?_ne (by decide)]
      exact .pair hc ih
  | plain hc _ _ ih =>
    rw [unescapeApostrophes_cons fun e => absurd e hc]
    exact .plain hc ih

/-- A literal shows the same with its quotes normalized. -/
theorem forall₂_sameAs_normalize {single : Bool} {b : List Char} (hb : Body (quoteChar single) b) :
    List.Forall₂ Lexeme.SameAs (Token.literal single b).lexemes
      (normalize (.literal single b)).lexemes := by
  cases single with
  | false => exact .cons (.refl _) .nil
  | true =>
    by_cases hq : b.contains '"' = true
    · rw [normalize_single_of_contains hq]
      exact .cons (.refl _) .nil
    · rw [normalize_single_of_not_contains hq]
      have hunescaped := unescaped_unescapeApostrophes hb
      exact .cons (.requoted (by simpa using hq) hunescaped hunescaped.stringUnits_eq) .nil

/-- What is written for a line shows the same. -/
theorem forall₂_sameAs_render (mode : Mode) (cs : List Char) :
    List.Forall₂ Lexeme.SameAs (lineLexemes mode cs) (lineLexemes mode (render (lex mode cs).1)) := by
  rw [lineLexemes, lineLexemes, lex_render]
  dsimp only
  -- a token in front that stays as it is
  have hsame : ∀ {t : Token} {ts : List Token}, normalize t = t →
      List.Forall₂ Lexeme.SameAs (ts.flatMap Token.lexemes)
        ((ts.map normalize).flatMap Token.lexemes) →
      List.Forall₂ Lexeme.SameAs ((t :: ts).flatMap Token.lexemes)
        (((t :: ts).map normalize).flatMap Token.lexemes) := by
    intro t ts ht h
    rw [List.map_cons, ht, List.flatMap_cons, List.flatMap_cons]
    exact List.rel_append (List.forall₂_refl _) h
  induction mode, cs using lex_induction with
  | nil mode => simp [lex]
  | commentEnd cs ih => rw [lex]; exact hsame rfl ih
  | commentChar c cs h ih => rw [lex_comment_cons h]; exact hsame rfl ih
  | templatePair c cs ih => rw [lex]; exact hsame rfl ih
  | templateEnd cs ih => rw [lex]; exact hsame rfl ih
  | templateChar c cs ht h ih => rw [lex_template_cons ht h]; exact hsame rfl ih
  | lineComment cs => rw [lex]; exact hsame rfl .nil
  | commentStart cs ih => rw [lex]; exact hsame rfl ih
  | literal single b cs hb ih =>
    rw [lex_literal hb, push, List.map_cons, List.flatMap_cons, List.flatMap_cons]
    exact List.rel_append (forall₂_sameAs_normalize hb) ih
  | unclosed single b hb => rw [lex_unclosed hb]; exact hsame rfl .nil
  | templateStart cs ih => rw [lex]; exact hsame rfl ih
  | codeChar c cs h ih => rw [lex_code_cons h]; exact hsame (normalize_codeToken c) ih

/-! ## Lines -/

/-- Where the brackets of a line match, its literals are closed. -/
theorem unclosed_not_mem_of_nest {number : Nat} {stack stack' : List Open} {ts : List Token}
    (h : nest number stack ts = .ok stack') (text : List Char) :
    .unclosed text ∉ ts.flatMap Token.lexemes := by
  induction ts generalizing stack with
  | nil => exact List.not_mem_nil
  | cons t ts ih =>
    rw [nest, List.foldlM_cons] at h
    obtain ⟨s, hs, h⟩ := bind_eq_ok h
    rw [List.flatMap_cons, List.mem_append, not_or]
    refine ⟨?_, ih h⟩
    cases t with
    | unclosed single b => cases hs
    | _ => simp [Token.lexemes]

/-- A lexeme that is neither unclosed nor part of a template literal is plain. -/
theorem isPlain_of_ne {x : Lexeme} (ht : ∀ c, x ≠ .template c) (hu : ∀ text, x ≠ .unclosed text) :
    x.isPlain = true := by
  cases x with
  | template c => exact absurd rfl (ht c)
  | unclosed text => exact absurd rfl (hu text)
  | _ => rfl

/-- What is written for a text on a line shows the same. -/
theorem sameLines_written {mode : Mode} (hm : mode ≠ .template) {line : List Char}
    (hplain : ∀ x ∈ lineLexemes mode (Text.trim line), x.isPlain = true) {ws : List Char}
    (hws : ∀ c ∈ ws, Text.isBlank c = true) :
    SameLines (shown (lineLexemes mode line))
      (shown (lineLexemes mode (ws ++ render (lex mode (Text.trim line)).1))) := by
  obtain ⟨bs, hbs, hbefore⟩ :=
    exists_lineLexemes_blank_append hm hws (render (lex mode (Text.trim line)).1)
  have hblank := trimLexemes_blank hbs (List.forall_mem_nil fun x => Lexeme.isBlank x = true)
    (lineLexemes mode (render (lex mode (Text.trim line)).1))
  rw [List.append_nil, ← hbefore] at hblank
  refine sameLines_of_trimLexemes (lineEnd_not_mem_lineLexemes _ _)
    (lineEnd_not_mem_lineLexemes _ _) ?_
  rw [trimLexemes_lineLexemes hm hplain, hblank]
  exact forall₂_trimLexemes (forall₂_sameAs_render mode (Text.trim line))

/-- A single line shows what its lexemes show, with an empty line in front of it or without. -/
theorem linesLexemes_writtenLines (width : Nat) (l : Layout) (line : List Char) (mode : Mode) :
    (linesLexemes mode (writtenLines width l line)).2 = (lex mode (indented width l line)).2 ∧
      shown (linesLexemes mode (writtenLines width l line)).1 =
        shown (lineLexemes mode (indented width l line)) := by
  have hsingle : ∀ ls, shown (linesLexemes mode [ls]).1 = shown (lineLexemes mode ls) := by
    intro ls
    rw [linesLexemes, linesLexemes, shown_append_lineEnd]
    exact List.append_nil _
  have hempty : lex mode [] = ([], mode) := by rw [lex]
  rw [writtenLines]
  split
  · rw [linesLexemes, hempty, lineLexemes, hempty]
    refine ⟨rfl, ?_⟩
    show shown ([] ++ .lineEnd :: (linesLexemes mode [indented width l line]).1) = _
    rw [shown_append_lineEnd, hsingle]
    rfl
  · exact ⟨rfl, hsingle _⟩

/-- What is written for a line ends in the mode in which the line ends. -/
theorem mode_linesLexemes_formatLine {width number : Nat} {l l' : Layout} {raw : List Char}
    {written : List (List Char)} (h : formatLine width number l raw = .ok (written, l')) :
    (linesLexemes l.mode written).2 = l'.mode := by
  -- what is lost at the end of the line or in front of it does not change the mode
  cases formatLine_eq_ok_iff.mp h with
  | template hm hs =>
    rw [hm]
    exact mode_lex_trimEnd .template raw
  | empty hm ht => rfl
  | text hm ht hs =>
    rw [(linesLexemes_writtenLines width l (Text.trim raw) l.mode).1, indented,
      lex_blank_append _ (isBlank_of_mem_indentation width l _), lex_render]

/-- What is written for a line is read up to where the line ends. -/
theorem lexemesFrom_written {width number : Nat} {l l' : Layout} {raw : List Char}
    {written : List (List Char)} (h : formatLine width number l raw = .ok (written, l'))
    (hraw : '\n' ∉ raw) (rest : List Char) :
    lexemesFrom l.mode.place (unlines written ++ rest) =
      (linesLexemes l.mode written).1 ++ lexemesFrom l'.mode.place rest := by
  have hn : ∀ ls ∈ written, '\n' ∉ ls := fun ls hls =>
    (isLine_of_mem_formatLine h hraw ls hls).newline_not_mem
  rw [lexemesFrom_unlines hn, mode_linesLexemes_formatLine h]

/-- What is written for a line shows the same. -/
theorem sameAs_line {width number : Nat} {l l' : Layout} (hm : l.mode ≠ .template)
    {line : List Char} {written : List (List Char)}
    (h : formatLine width number l line = .ok (written, l'))
    (ht : ∀ c, .template c ∉ lineLexemes l.mode line) :
    SameLines (shown (lineLexemes l.mode line)) (shown (linesLexemes l.mode written).1) := by
  cases formatLine_eq_ok_iff.mp h with
  | template hm' _ => exact absurd hm' hm
  | empty _ hempty =>
    -- nothing is written for a line that shows nothing
    have htrim : trimLexemes (lineLexemes l.mode line) = [] := by
      rw [trimLexemes_lineLexemes hm] <;> simp [hempty, lineLexemes, lex, trimLexemes]
    rw [shown_line (lineEnd_not_mem_lineLexemes _ _), htrim]
    exact .nil
  | text _ _ hnest =>
    have hu := unclosed_not_mem_of_nest hnest
    have ht' := template_not_mem_lineLexemes_trim hm ht
    have hplain : ∀ x ∈ lineLexemes l.mode (Text.trim line), x.isPlain = true := fun x hx =>
      isPlain_of_ne (fun c e => ht' c (e ▸ hx)) fun text e => hu text (e ▸ hx)
    rw [(linesLexemes_writtenLines width l (Text.trim line) l.mode).2]
    exact sameLines_written hm hplain (isBlank_of_mem_indentation width l _)

/-- What is written for a text shows the same if the text ends in code. -/
theorem sameAs_lines (text : List Char) {width number last : Nat} {l l' : Layout}
    (hm : l.mode ≠ .template) {written : List (List Char)}
    (h : formatLines width number l (Text.lines text) = .ok (written, l', last))
    (hcode : l'.mode = .code) (ht : ∀ c, .template c ∉ lexemesFrom l.mode.place text) :
    SameLines (shown (lexemesFrom l.mode.place text))
      (shown (lexemesFrom l.mode.place (unlines written))) := by
  induction text using Text.line_induction generalizing l number written with
  | nil =>
    cases h
    exact List.forall₂_refl _
  | last line hne hn =>
    rw [Text.lines_last hn hne] at h
    obtain ⟨written, l'', more, hline, hmore, heq⟩ := formatLines_cons_eq_ok h
    cases hmore
    cases heq
    rw [lexemesFrom_last hn] at ht ⊢
    have hsame := sameAs_line hm hline fun c hc => ht c (List.mem_append_left _ hc)
    have hwritten := lexemesFrom_written hline hn []
    -- nothing is left behind the last line
    have hnil : lexemesFrom Mode.code.place [] = [] := rfl
    rw [List.append_nil, hcode, hnil, List.append_nil] at hwritten
    rwa [← mode_formatLine hline, hcode, hnil, List.append_nil, List.append_nil, hwritten]
  | line line rest hn ih =>
    obtain ⟨raw, hraw, hformat⟩ := exists_lines_formatLine hn rest
    rw [hraw] at h
    obtain ⟨written, next, ⟨more, l', last⟩, hline, hmore, heq⟩ := formatLines_cons_eq_ok h
    cases heq
    rw [hformat hm width number] at hline
    have hlexed := lexemesFrom_append_newline hn l.mode rest
    have hmode := mode_formatLine hline
    rw [← hmode] at hlexed
    rw [hlexed] at ht
    have hsame := sameAs_line hm hline fun c hc => ht c (List.mem_append_left _ hc)
    have hm' : next.mode ≠ .template := by
      rw [hmode]
      exact mode_lex_ne_template hm fun c hc => ht c (List.mem_append_left _ hc)
    have ih := ih hm' hmore fun c hc =>
      ht c (List.mem_append_right _ (List.mem_cons_of_mem _ hc))
    rw [hlexed, shown_append_lineEnd, unlines_append, lexemesFrom_written hline hn,
      shown_linesLexemes_append]
    exact List.rel_append hsame ih

/-- Formatting touches presentation only: a script without template literals shows the same when it
is formatted.  Line by line and without white space at the ends of lines, it has the same
characters of code and of comments, with the same white space between them, and literals with the
same values in the same places. -/
theorem shownLines_format {width : Nat} {source target : String}
    (h : format width source = .ok target) (ht : ∀ c, .template c ∉ lexemes source) :
    SameLines (shownLines source) (shownLines target) := by
  obtain ⟨cs, hcs, rfl⟩ := map_eq_ok h
  obtain ⟨written, l, last, hlines, hcode, -, rfl⟩ := formatChars_eq_ok.mp hcs
  rw [shownLines, shownLines, lexemes, lexemes, String.toList_ofList]
  exact sameAs_lines source.toList (l := {}) nofun hlines hcode ht

/-- A script with quotes, comments and brackets inside of one another. -/
def tangled : String :=
  "/* it's (\n\n   \" */ a = 'it\\'s' + '\\\\\\''; // don't [\n\n  b(\"'\", '\"') "

/-- Such a script shows the same when it is formatted. -/
theorem shownLines_format_tangled :
    ∃ target, format 2 tangled = .ok target ∧ (∀ c, .template c ∉ lexemes tangled) ∧
      SameLines (shownLines tangled) (shownLines target) := by
  have hplain : ∀ x ∈ lexemes tangled, x.isPlain = true := by decide
  have ht : ∀ c, .template c ∉ lexemes tangled := fun c hc => by
    simpa [Lexeme.isPlain] using hplain _ hc
  exact ⟨_, rfl, ht, shownLines_format rfl ht⟩

end Promptwright.Script
