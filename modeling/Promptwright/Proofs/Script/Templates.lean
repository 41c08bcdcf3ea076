import Promptwright.Proofs.Script.Presentation

/-!
# What becomes of template literals

`templates` reads the template literals of a script off its lexemes, line by line and with a
carriage return before the end of a line taken as a part of that end.  A formatted script has the
same template literals in the same order, but white space at the end of any of their lines is gone,
the last line excepted.  So their texts are kept just where there is no such white space.

`Reading` is what is known of the template literals in the middle of a script.  It follows the
source and what is written for it side by side.

## Key results

- `Reading.stripped_readAll`: both readings go on alike on the same lexemes
- `Reading.tracks_readAll`: a reading goes along with the mode of a line
- `Reading.stripped_line`: white space at the end of a line is forgotten where the line ends
- `Reading.stripped_formatLine`, `Reading.stripped_formatLines`: one line, and all lines
- `templates_format`: the template literals of a formatted script
-/

namespace Promptwright.Script

/-! ## Template literals -/

/-- What stands between the backticks of a template literal, in lines. -/
structure Template where
  /-- The lines that end inside the literal. -/
  earlier : List (List Char) := []
  last : List Char := []
deriving DecidableEq, Repr

/-- The characters between the backticks. -/
def Template.text (t : Template) : List Char := unlines t.earlier ++ t.last

/-- The literal without white space at the ends of its lines. -/
def Template.stripped (t : Template) : Template := { t with earlier := t.earlier.map Text.trimEnd }

/-- A line without a carriage return at its end. -/
def dropReturn (line : List Char) : List Char :=
  if line.getLast? = some '\r' then line.dropLast else line

/-- A template literal that has not ended. -/
structure OpenTemplate where
  earlier : List (List Char) := []
  line : List Char := []
  /-- Whether the next character is escaped. -/
  escaped : Bool := false
deriving DecidableEq, Repr

/-- The literal with another character. -/
def OpenTemplate.push (p : OpenTemplate) (c : Char) : OpenTemplate :=
  { p with line := p.line ++ [c], escaped := !p.escaped && c == '\\' }

/-- The literal in the next line. -/
def OpenTemplate.next (p : OpenTemplate) : OpenTemplate :=
  { earlier := p.earlier ++ [dropReturn p.line] }

/-- The literal without white space at the ends of the lines before this one. -/
def OpenTemplate.stripped (p : OpenTemplate) : OpenTemplate :=
  { p with earlier := p.earlier.map Text.trimEnd }

/-- The template literals that were read, and the one that has not ended. -/
structure Reading where
  found : List Template := []
  pending : Option OpenTemplate := none
deriving DecidableEq, Repr

namespace Reading

/-- What is known after a lexeme. -/
def read (r : Reading) : Lexeme → Reading
  | .template c =>
    match r.pending with
    | none => { r with pending := some {} }
    | some p =>
      if !p.escaped && c == '\x60' then
        { found := r.found ++ [{ earlier := p.earlier, last := p.line }] }
      else { r with pending := some (p.push c) }
  | .lineEnd => { r with pending := r.pending.map OpenTemplate.next }
  | _ => r

/-- What is known after some lexemes. -/
def readAll (r : Reading) (xs : List Lexeme) : Reading := xs.foldl read r

/-- The same without white space at the ends of lines. -/
def stripped (r : Reading) : Reading :=
  { found := r.found.map Template.stripped, pending := r.pending.map OpenTemplate.stripped }

end Reading

/-- The template literals of a script. -/
def templates (script : String) : List Template := (({} : Reading).readAll (lexemes script)).found

example : templates "a(\x60b\r\n \\\x60\x60, \"\x60\", \x60\x60)" =
    [{ earlier := [['b']], last := [' ', '\\', '\x60'] }, {}] := by decide

/-! ## Reading on -/

namespace Reading

variable {r r' : Reading}

@[simp] theorem readAll_nil (r : Reading) : r.readAll [] = r := rfl

@[simp] theorem readAll_cons (r : Reading) (x : Lexeme) (xs : List Lexeme) :
    r.readAll (x :: xs) = (r.read x).readAll xs := rfl

@[simp] theorem readAll_append (r : Reading) (xs ys : List Lexeme) :
    r.readAll (xs ++ ys) = (r.readAll xs).readAll ys := List.foldl_append

theorem read_lineEnd (r : Reading) :
    r.read .lineEnd = { r with pending := r.pending.map OpenTemplate.next } := rfl

/-- Where no template literal is pending, the next one starts at a backtick. -/
theorem read_template_none (h : r.pending = none) (c : Char) :
    r.read (.template c) = { r with pending := some {} } := by
  obtain ⟨found, pending⟩ := r
  obtain rfl : pending = none := h
  rfl

/-- Where a template literal is pending, it ends or goes on. -/
theorem read_template_some {p : OpenTemplate} (h : r.pending = some p) (c : Char) :
    r.read (.template c) = if !p.escaped && c == '\x60' then
        { found := r.found ++ [{ earlier := p.earlier, last := p.line }] }
      else { r with pending := some (p.push c) } := by
  obtain ⟨found, pending⟩ := r
  obtain rfl : pending = some p := h
  rfl

/-- Where no template literal is pending, the end of a line does not count. -/
theorem read_lineEnd_none (h : r.pending = none) : r.read .lineEnd = r := by
  rw [read_lineEnd, h, Option.map_none, ← h]

/-- Code, comments and string literals do not count. -/
theorem readAll_eq_self {xs : List Lexeme} (ht : ∀ c, .template c ∉ xs) (hn : .lineEnd ∉ xs)
    (r : Reading) : r.readAll xs = r := by
  induction xs with
  | nil => rfl
  | cons x xs ih =>
    have ih := ih (fun c hc => ht c (List.mem_cons_of_mem x hc))
      fun h => hn (List.mem_cons_of_mem x h)
    cases x with
    | template c => exact absurd List.mem_cons_self (ht c)
    | lineEnd => exact absurd List.mem_cons_self hn
    | _ => exact ih

/-- White space in code and in comments does not count. -/
theorem readAll_blank {bs : List Lexeme} (h : ∀ x ∈ bs, x.isBlank = true) (r : Reading) :
    r.readAll bs = r :=
  readAll_eq_self (fun _ hc => nomatch h _ hc) (fun hn => nomatch h _ hn) r

/-- The quotes of string literals do not count. -/
theorem readAll_sameAs {xs ys : List Lexeme} (h : List.Forall₂ Lexeme.SameAs xs ys)
    (r : Reading) : r.readAll xs = r.readAll ys := by
  induction h generalizing r with
  | nil => rfl
  | cons hxy _ ih =>
    cases hxy with
    | refl x => exact ih _
    | requoted hq hunescaped hv => exact ih r

/-- On the same lexemes of a line, readings with and without white space at the ends of the lines
before it go on alike. -/
theorem stripped_readAll {xs : List Lexeme} (h : .lineEnd ∉ xs) (r : Reading) :
    (r.readAll xs).stripped = r.stripped.readAll xs := by
  induction xs generalizing r with
  | nil => rfl
  | cons x xs ih =>
    simp only [List.mem_cons, not_or] at h
    rw [readAll_cons, readAll_cons, ih h.2]
    congr 1
    -- only a template literal that is pending holds text of the lines before
    cases x with
    | template c =>
      cases hp : r.pending with
      | none =>
        have hp' : r.stripped.pending = none := by rw [stripped, hp, Option.map_none]
        rw [read_template_none hp, read_template_none hp']
        rfl
      | some p =>
        have hp' : r.stripped.pending = some p.stripped := by rw [stripped, hp, Option.map_some]
        rw [read_template_some hp, read_template_some hp']
        by_cases hc : !p.escaped && c == '\x60'
        · rw [if_pos hc, if_pos (show (!p.stripped.escaped && c == '\x60') = true from hc)]
          simp [stripped, Template.stripped, OpenTemplate.stripped]
        · rw [if_neg hc, if_neg (show ¬(!p.stripped.escaped && c == '\x60') = true from hc)]
          rfl
    | lineEnd => exact absurd rfl h.1
    | _ => rfl

/-! ## The mode of a line -/

/-- Whether a reading goes with a mode: a template literal is pending in that mode only, and what
was read of it on this line stands at the end of a text. -/
def Tracks (r : Reading) (text : List Char) : Mode → Prop
  | .template => ∃ p, r.pending = some p ∧ p.line <:+ text
  | _ => r.pending = none

/-- Whether a reading goes with the mode in which a line starts. -/
def Ready (r : Reading) : Mode → Prop
  | .template => ∃ earlier, r.pending = some { earlier }
  | _ => r.pending = none

/-- A pending literal goes on with a character that does not end it. -/
theorem read_template_push {p : OpenTemplate} (hp : r.pending = some p) {c : Char}
    (h : p.escaped = true ∨ c ≠ '\x60') :
    r.read (.template c) = { r with pending := some (p.push c) } := by
  have hopen : ¬(!p.escaped && c == '\x60') = true := by
    rw [Bool.and_eq_true, Bool.not_eq_true', beq_iff_eq]
    rintro ⟨hescaped, hc⟩
    rcases h with h | h
    · exact Bool.false_ne_true (hescaped.symm.trans h)
    · exact h hc
  rw [read_template_some hp, if_neg hopen]

/-- A backtick that is not escaped ends a pending literal. -/
theorem read_template_end {p : OpenTemplate} (hp : r.pending = some p) (h : p.escaped = false) :
    (r.read (.template '\x60')).pending = none := by
  rw [read_template_some hp, h]
  rfl

/-- A token of something else than a template literal does not count. -/
theorem readAll_lexemes {t : Token} (h : ∀ cs, t ≠ .template cs) (r : Reading) :
    r.readAll t.lexemes = r := by
  cases t with
  | template cs => exact absurd rfl (h cs)
  | _ => exact readAll_eq_self (by simp [Token.lexemes]) (by simp [Token.lexemes]) r

/-- A reading goes along with a token and what comes after it. -/
theorem tracks_push {t : Token} {res : List Token × Mode} {text : List Char}
    (h : ((r.readAll t.lexemes).readAll (res.1.flatMap Token.lexemes)).Tracks text res.2) :
    (r.readAll ((push t res).1.flatMap Token.lexemes)).Tracks text (push t res).2 := by
  rwa [push, List.flatMap_cons, readAll_append]

/-- A reading goes along with a token that does not count and what comes after it. -/
theorem tracks_push_other {t : Token} {res : List Token × Mode} {text : List Char}
    (ht : ∀ cs, t ≠ .template cs)
    (h : (r.readAll (res.1.flatMap Token.lexemes)).Tracks text res.2) :
    (r.readAll ((push t res).1.flatMap Token.lexemes)).Tracks text (push t res).2 :=
  tracks_push (by rwa [readAll_lexemes ht])

/-- A character of code is no part of a template literal. -/
theorem codeToken_ne_template (c : Char) (cs : List Char) : codeToken c ≠ .template cs := by
  unfold codeToken
  split
  · simp
  · split <;> simp

/-- A pending literal that goes on stands at the end of a text that goes on. -/
theorem tracks_of_line {p q : OpenTemplate} {text cs : List Char} (hline : p.line <:+ text)
    (hq : q.line = p.line ++ cs) (found : List Template) :
    Tracks { found := found, pending := some q } (text ++ cs) .template := by
  obtain ⟨pre, rfl⟩ := hline
  exact ⟨q, rfl, pre, by rw [hq, List.append_assoc]⟩

/-- A reading goes along with the mode of a line. -/
theorem tracks_readAll {mode : Mode} {text : List Char} (h : r.Tracks text mode)
    (hescaped : ∀ p, r.pending = some p → p.escaped = false) (cs : List Char) :
    (r.readAll (lineLexemes mode cs)).Tracks (text ++ cs) (lex mode cs).2 := by
  unfold lineLexemes
  induction mode, cs using lex_induction generalizing r text with
  | nil mode => simpa [lex] using h
  | commentEnd cs ih =>
    rw [lex]
    refine tracks_push_other (by simp) ?_
    simpa using ih (show r.Tracks (text ++ ['*', '/']) .code from h) hescaped
  | commentChar c cs hc ih =>
    rw [lex_comment_cons hc]
    refine tracks_push_other (by simp) ?_
    simpa using ih (show r.Tracks (text ++ [c]) .comment from h) hescaped
  | templatePair c cs ih =>
    obtain ⟨p, hp, hline⟩ := h
    have hread : r.readAll (Token.template ['\\', c]).lexemes =
        { r with pending := some ((p.push '\\').push c) } := by
      show (r.read (.template '\\')).read (.template c) = _
      rw [read_template_push hp (.inr (by decide)),
        read_template_push rfl (.inl (by simp [OpenTemplate.push, hescaped p hp]))]
    have hpush : ((p.push '\\').push c).line = p.line ++ ['\\', c] := by simp [OpenTemplate.push]
    rw [lex]
    refine tracks_push ?_
    rw [hread]
    simpa using ih (tracks_of_line hline hpush r.found) (by simp [OpenTemplate.push, hescaped p hp])
  | templateEnd cs ih =>
    obtain ⟨p, hp, hline⟩ := h
    have hnone := read_template_end hp (hescaped p hp)
    rw [lex]
    refine tracks_push ?_
    -- code follows, where nothing is pending
    have h' : (r.read (.template '\x60')).Tracks (text ++ ['\x60']) .code := hnone
    have ih := ih h' (by simp [hnone])
    rwa [List.append_assoc] at ih
  | templateChar c cs ht hc ih =>
    obtain ⟨p, hp, hline⟩ := h
    have hread : r.readAll (Token.template [c]).lexemes = { r with pending := some (p.push c) } :=
      read_template_push hp (.inr ht)
    have h' : Tracks { r with pending := some (p.push c) } (text ++ [c]) .template :=
      tracks_of_line hline rfl r.found
    rw [lex_template_cons ht hc]
    refine tracks_push ?_
    rw [hread]
    by_cases hlast : c = '\\'
    · -- a backslash at the end of the line escapes nothing
      rw [hc hlast, lex]
      exact h'
    · simpa using ih h' (by simp [OpenTemplate.push, hlast])
  | lineComment cs =>
    rw [lex, List.flatMap_singleton, readAll_lexemes (by simp)]
    exact h
  | commentStart cs ih =>
    rw [lex]
    refine tracks_push_other (by simp) ?_
    simpa using ih (show r.Tracks (text ++ ['/', '*']) .comment from h) hescaped
  | literal single b cs hb ih =>
    rw [lex_literal hb]
    refine tracks_push_other (by simp) ?_
    have h' : r.Tracks (text ++ quoteChar single :: (b ++ [quoteChar single])) .code := h
    simpa using ih h' hescaped
  | unclosed single b hb =>
    rw [lex_unclosed hb, List.flatMap_singleton, readAll_lexemes (by simp)]
    exact h
  | templateStart cs ih =>
    have hread : r.readAll (Token.template ['\x60']).lexemes = { r with pending := some {} } :=
      read_template_none h '\x60'
    have h' : Tracks { r with pending := some {} } (text ++ ['\x60']) .template :=
      ⟨{}, rfl, List.nil_suffix⟩
    rw [lex]
    refine tracks_push ?_
    rw [hread]
    simpa using ih h' (by simp)
  | codeChar c cs hc ih =>
    rw [lex_code_cons hc]
    refine tracks_push_other (codeToken_ne_template c) ?_
    simpa using ih (show r.Tracks (text ++ [c]) .code from h) hescaped

/-! ## White space at the end of a line -/

/-- A reading goes with the mode of the next line where a line ends. -/
theorem ready_read_lineEnd {text : List Char} {mode : Mode} (h : r.Tracks text mode) :
    (r.read .lineEnd).Ready mode := by
  cases mode with
  | template =>
    obtain ⟨p, hp, -⟩ := h
    exact ⟨p.earlier ++ [dropReturn p.line], by rw [read_lineEnd, hp]; rfl⟩
  | code => exact (read_lineEnd_none h).symm ▸ h
  | comment => exact (read_lineEnd_none h).symm ▸ h

/-- Where a line starts, nothing is pending on it and nothing is escaped. -/
theorem Ready.tracks {mode : Mode} (h : r.Ready mode) :
    r.Tracks [] mode ∧ ∀ p, r.pending = some p → p.escaped = false := by
  cases mode with
  | template =>
    obtain ⟨earlier, hp⟩ := h
    refine ⟨⟨_, hp, List.nil_suffix⟩, fun p hp' => ?_⟩
    obtain rfl : { earlier } = p := Option.some.inj (hp ▸ hp')
    rfl
  | code => exact ⟨h, by simp [show r.pending = none from h]⟩
  | comment => exact ⟨h, by simp [show r.pending = none from h]⟩

/-- White space goes into a pending literal. -/
theorem readAll_map_template {p : OpenTemplate} (hp : r.pending = some p) {ws : List Char}
    (hws : ∀ c ∈ ws, Text.isBlank c = true) :
    ∃ escaped, r.readAll (ws.map .template) =
      { r with pending := some { p with line := p.line ++ ws, escaped } } := by
  induction ws generalizing r p with
  | nil => exact ⟨p.escaped, by cases r; simp_all⟩
  | cons w ws ih =>
    obtain ⟨hw, hws⟩ := List.forall_mem_cons.mp hws
    have hne : w ≠ '\x60' := ne_of_isBlank hw (by decide)
    obtain ⟨escaped, hread⟩ := ih (r := { r with pending := some (p.push w) }) rfl hws
    refine ⟨escaped, ?_⟩
    rw [List.map_cons, readAll_cons, read_template_push hp (.inr hne), hread]
    simp [OpenTemplate.push]

/-- One reading has nothing more than another one but white space at the end of the pending
line. -/
structure Padded (r r' : Reading) : Prop where
  found : r'.found = r.found
  pending : Option.Rel (fun p q => q.earlier = p.earlier ∧
    Text.trimEnd q.line = Text.trimEnd p.line) r.pending r'.pending

/-- A reading has nothing more than itself. -/
theorem padded_refl (r : Reading) : Padded r r := by
  refine ⟨rfl, ?_⟩
  cases r.pending with
  | none => exact .none
  | some p => exact .some ⟨rfl, rfl⟩

/-- White space behind a line goes into the pending literal at most. -/
theorem padded_of_trailed {ws : List Char} {res : List Token × Mode} {ts : List Token}
    (h : Trailed ws res ts) (hws : ∀ c ∈ ws, Text.isBlank c = true) {text : List Char}
    (ht : (r.readAll (res.1.flatMap Token.lexemes)).Tracks text res.2) :
    Padded (r.readAll (res.1.flatMap Token.lexemes)) (r.readAll (ts.flatMap Token.lexemes)) := by
  -- a literal that is pending takes the white space in
  have htemplate : ∀ {s : Reading} {p : OpenTemplate} {vs : List Char}, s.pending = some p →
      (∀ c ∈ vs, Text.isBlank c = true) →
      Padded s (s.readAll ((vs.map (blankToken · .template)).flatMap Token.lexemes)) := by
    intro s p vs hp hvs
    have hmap : (vs.map (blankToken · .template)).flatMap Token.lexemes = vs.map .template := by
      rw [List.flatMap_map, List.map_eq_flatMap]
      rfl
    obtain ⟨escaped, hread⟩ := readAll_map_template hp hvs
    rw [hmap, hread]
    exact ⟨rfl, hp ▸ .some ⟨rfl, Text.trimEnd_append_blank _ hvs⟩⟩
  -- white space counts only where it goes into a literal that is pending
  induction h generalizing r with
  | blank mode =>
    cases mode with
    | template =>
      obtain ⟨p, hp, -⟩ := ht
      exact htemplate hp hws
    | code =>
      rw [readAll_blank (isBlank_of_mem_blankToken (by decide) hws)]
      exact padded_refl r
    | comment =>
      rw [readAll_blank (isBlank_of_mem_blankToken (by decide) hws)]
      exact padded_refl r
  | lineComment text =>
    rw [List.flatMap_singleton, List.flatMap_singleton, readAll_lexemes (by simp),
      readAll_lexemes (by simp)]
    exact padded_refl r
  | unclosed single b =>
    rw [List.flatMap_singleton, List.flatMap_singleton, readAll_lexemes (by simp),
      readAll_lexemes (by simp)]
    exact padded_refl r
  | @templatePair w vs hvs =>
    obtain ⟨p, hp, -⟩ := ht
    subst hvs
    exact htemplate hp hws
  | push t _ ih =>
    rw [push, List.flatMap_cons, readAll_append] at ht
    rw [push, List.flatMap_cons, List.flatMap_cons, readAll_append, readAll_append]
    exact ih ht

/-- What ends before white space is not more than what ends there. -/
theorem trimEnd_dropReturn (line : List Char) :
    Text.trimEnd (dropReturn line) = Text.trimEnd line := by
  unfold dropReturn
  split
  next h =>
    obtain ⟨front, rfl⟩ := List.getLast?_eq_some_iff.mp h
    have hblank : ∀ c ∈ ['\r'], Text.isBlank c = true := List.forall_mem_singleton.mpr rfl
    rw [List.dropLast_concat, Text.trimEnd_append_blank _ hblank]
  next => rfl

/-- A line without white space at its end has no carriage return there. -/
theorem dropReturn_eq_self {line : List Char} (h : Text.trimEnd line = line) :
    dropReturn line = line := by
  refine if_neg fun hlast => ?_
  have hblank := Text.isBlank_getLast?_trimEnd line '\r' (by rw [h, hlast])
  exact absurd hblank (by decide)

/-- What stands at the end of a text without white space there has none there either. -/
theorem trimEnd_eq_self_of_suffix {s text : List Char} (h : s <:+ text)
    (htext : Text.trimEnd text = text) : Text.trimEnd s = s := by
  refine Text.trimEnd_eq_self fun c hc => ?_
  obtain ⟨pre, rfl⟩ := h
  have hlast : (pre ++ s).getLast? = some c := by rw [List.getLast?_append, hc, Option.some_or]
  exact Text.isBlank_getLast?_trimEnd (pre ++ s) c (htext.symm ▸ hlast)

/-- Where a line ends, white space at its end is forgotten. -/
theorem Padded.stripped_read_lineEnd (h : Padded r r')
    (hline : ∀ p, r.pending = some p → Text.trimEnd p.line = p.line) :
    (r'.read .lineEnd).stripped = r.stripped.read .lineEnd := by
  obtain ⟨hfound, hpending⟩ := h
  cases r
  cases r'
  cases hpending with
  | none => simp_all [read_lineEnd, stripped]
  | @some p q hpq =>
    have hp := hline p rfl
    simp_all [read_lineEnd, stripped, OpenTemplate.next, OpenTemplate.stripped,
      trimEnd_dropReturn, dropReturn_eq_self hp]

/-- A line is read like the same line with white space at its end, as soon as it has ended. -/
theorem stripped_line {mode : Mode} (h : r.Ready mode) {cs : List Char}
    (hcs : Text.trimEnd cs = cs) {ws : List Char} (hws : ∀ c ∈ ws, Text.isBlank c = true) :
    ((r.readAll (lineLexemes mode (cs ++ ws))).read .lineEnd).stripped =
      (r.stripped.readAll (lineLexemes mode cs)).read .lineEnd := by
  have htracks := tracks_readAll h.tracks.1 h.tracks.2 cs
  have hpadded := padded_of_trailed (lex_append_blank mode cs hws).2 hws htracks
  rw [← stripped_readAll (lineEnd_not_mem_lineLexemes mode cs)]
  refine hpadded.stripped_read_lineEnd fun p hp => ?_
  -- a literal is pending just if the line ends inside of one
  cases hmode : (lex mode cs).2 with
  | template =>
    rw [hmode] at htracks
    obtain ⟨q, hq, hline⟩ := htracks
    obtain rfl : q = p := Option.some.inj (hq.symm.trans hp)
    exact trimEnd_eq_self_of_suffix hline hcs
  | code =>
    rw [hmode] at htracks
    cases hp.symm.trans htracks
  | comment =>
    rw [hmode] at htracks
    cases hp.symm.trans htracks

/-! ## Lines -/

/-- In code and in comments, nothing is pending where a line starts. -/
theorem Ready.pending_eq_none {mode : Mode} (h : r.Ready mode) (hm : mode ≠ .template) :
    r.pending = none := by
  cases mode with
  | template => exact absurd rfl hm
  | code => exact h
  | comment => exact h

/-- White space in front of a line of code or of a comment does not count. -/
theorem readAll_blank_append {mode : Mode} (hm : mode ≠ .template) {ws : List Char}
    (hws : ∀ c ∈ ws, Text.isBlank c = true) (cs : List Char) (r : Reading) :
    r.readAll (lineLexemes mode (ws ++ cs)) = r.readAll (lineLexemes mode cs) := by
  obtain ⟨bs, hbs, hlexed⟩ := exists_lineLexemes_blank_append hm hws cs
  rw [hlexed, readAll_append, readAll_blank hbs]

/-- A line is read like the same line without white space at its end, as soon as it has ended. -/
theorem stripped_trimEnd {mode : Mode} (h : r.Ready mode) (cs : List Char) :
    ((r.readAll (lineLexemes mode cs)).read .lineEnd).stripped =
      (r.stripped.readAll (lineLexemes mode (Text.trimEnd cs))).read .lineEnd := by
  obtain ⟨ws, hsplit, hws⟩ := Text.eq_trimEnd_append cs
  have hstripped := stripped_line h (Text.trimEnd_trimEnd cs) hws
  rwa [← hsplit] at hstripped

/-- Outside template literals, a line is read like the same line without white space around it, as
soon as it has ended. -/
theorem stripped_trim {mode : Mode} (h : r.Ready mode) (hm : mode ≠ .template) (cs : List Char) :
    ((r.readAll (lineLexemes mode cs)).read .lineEnd).stripped =
      (r.stripped.readAll (lineLexemes mode (Text.trim cs))).read .lineEnd := by
  obtain ⟨pre, post, hsplit, hpre, hpost⟩ := Text.exists_eq_trim cs
  have htight : Text.trimEnd (Text.trim cs) = Text.trim cs := Text.trimEnd_trimEnd _
  have hstripped := stripped_line h htight hpost
  rwa [← readAll_blank_append hm hpre, ← List.append_assoc, ← hsplit] at hstripped

/-- An empty line in front of a line does not count. -/
theorem readAll_writtenLines (h : r.pending = none) (width : Nat) (l : Layout)
    (line : List Char) :
    r.readAll (linesLexemes l.mode (writtenLines width l line)).1 =
      (r.readAll (lineLexemes l.mode (indented width l line))).read .lineEnd := by
  have hempty : lex l.mode [] = ([], l.mode) := by rw [lex]
  rw [writtenLines]
  split
  · rw [linesLexemes, lineLexemes, hempty]
    show (r.read .lineEnd).readAll (lineLexemes l.mode (indented width l line) ++ [.lineEnd]) = _
    rw [read_lineEnd_none h, readAll_append]
    rfl
  · show r.readAll (lineLexemes l.mode (indented width l line) ++ [.lineEnd]) = _
    rw [readAll_append]
    rfl

/-- What is written for a line is read like the line, but for white space at the ends of the lines
of template literals. -/
theorem stripped_formatLine {width number : Nat} {l l' : Layout} {raw line : List Char}
    {written : List (List Char)} (h : formatLine width number l raw = .ok (written, l'))
    (hline : line = raw ∨ line = raw ++ ['\r']) (hr : r.Ready l.mode) :
    ((r.readAll (lineLexemes l.mode line)).read .lineEnd).stripped =
      r.stripped.readAll (linesLexemes l.mode written).1 := by
  -- a carriage return is white space at the end of the line
  have hreturn : ∀ c ∈ ['\r'], Text.isBlank c = true := List.forall_mem_singleton.mpr rfl
  have htrimEnd : Text.trimEnd line = Text.trimEnd raw := by
    rcases hline with rfl | rfl
    · rfl
    · exact Text.trimEnd_append_blank raw hreturn
  have htrim : Text.trim line = Text.trim raw := by
    rcases hline with rfl | rfl
    · rfl
    · exact Text.trim_append_blank raw hreturn
  cases formatLine_eq_ok_iff.mp h with
  | template hm hs =>
    rw [stripped_trimEnd hr, htrimEnd, linesLexemes, readAll_append]
    rfl
  | empty hm ht =>
    rw [stripped_trim hr hm, htrim, ht, lineLexemes, lex]
    exact read_lineEnd_none (by simp [stripped, hr.pending_eq_none hm])
  | text hm ht hs =>
    have hnone : r.stripped.pending = none := by simp [stripped, hr.pending_eq_none hm]
    rw [stripped_trim hr hm, htrim, readAll_writtenLines hnone, indented,
      readAll_blank_append hm (isBlank_of_mem_indentation width l _),
      readAll_sameAs (forall₂_sameAs_render l.mode (Text.trim raw))]

/-- Behind a line, a reading goes with the mode in which the line ends. -/
theorem ready_formatLine {width number : Nat} {l l' : Layout} {raw line : List Char}
    {written : List (List Char)} (h : formatLine width number l raw = .ok (written, l'))
    (hline : line = raw ∨ line = raw ++ ['\r']) (hr : r.Ready l.mode) :
    (lex l.mode line).2 = l'.mode ∧
      (r.readAll (lineLexemes l.mode line)).Tracks line l'.mode := by
  have hmode : (lex l.mode line).2 = l'.mode := by
    rcases hline with rfl | rfl
    · exact (mode_formatLine h).symm
    · rw [(lex_append_blank l.mode raw (List.forall_mem_singleton.mpr (by decide))).1]
      exact (mode_formatLine h).symm
  refine ⟨hmode, hmode ▸ ?_⟩
  simpa using tracks_readAll hr.tracks.1 hr.tracks.2 line

/-- What is written for a text is read like the text, but for white space at the ends of the lines
of template literals, if the text ends in code. -/
theorem stripped_formatLines (text : List Char) {width number last : Nat} {l l' : Layout}
    {written : List (List Char)} (hr : r.Ready l.mode)
    (h : formatLines width number l (Text.lines text) = .ok (written, l', last))
    (hcode : l'.mode = .code) :
    (r.readAll (lexemesFrom l.mode.place text)).stripped =
      r.stripped.readAll (lexemesFrom l.mode.place (unlines written)) := by
  -- nothing is left behind the last line
  have hnil : lexemesFrom Mode.code.place [] = [] := rfl
  induction text using Text.line_induction generalizing l number written r with
  | nil =>
    cases h
    rw [hcode]
    rfl
  | last line hne hn =>
    rw [Text.lines_last hn hne] at h
    obtain ⟨written, l'', more, hformat, hmore, heq⟩ := formatLines_cons_eq_ok h
    cases hmore
    cases heq
    have hstripped := stripped_formatLine hformat (.inl rfl) hr
    obtain ⟨hmode, htracks⟩ := ready_formatLine hformat (.inl rfl) hr
    have hwritten := lexemesFrom_written hformat hn []
    rw [hcode] at hmode htracks hwritten
    rw [List.append_nil, hnil, List.append_nil] at hwritten
    rw [lexemesFrom_last hn, hmode, hnil, List.append_nil, List.append_nil, hwritten, ← hstripped,
      read_lineEnd_none htracks]
  | line line rest hn ih =>
    obtain ⟨raw, hraw, hline⟩ := Text.exists_lines_eq hn rest
    rw [hraw] at h
    obtain ⟨written, next, ⟨more, l', last⟩, hformat, hmore, heq⟩ := formatLines_cons_eq_ok h
    cases heq
    have hstripped := stripped_formatLine hformat hline hr
    obtain ⟨hmode, htracks⟩ := ready_formatLine hformat hline hr
    have hnraw : '\n' ∉ raw := by
      rcases hline with rfl | rfl
      · exact hn
      · exact fun h => hn (List.mem_append_left _ h)
    rw [lexemesFrom_append_newline hn, hmode, unlines_append, lexemesFrom_written hformat hnraw,
      readAll_append, readAll_append, readAll_cons, ← hstripped]
    exact ih (ready_read_lineEnd htracks) hmore

end Reading

/-! ## Scripts -/

/-- White space at the ends of lines makes a text longer. -/
theorem length_unlines_map_trimEnd (ls : List (List Char)) :
    (unlines (ls.map Text.trimEnd)).length ≤ (unlines ls).length ∧
      ((unlines (ls.map Text.trimEnd)).length = (unlines ls).length ↔
        ∀ line ∈ ls, Text.trimEnd line = line) := by
  induction ls with
  | nil => simp [unlines]
  | cons l ls ih =>
    obtain ⟨ws, hsplit, -⟩ := Text.eq_trimEnd_append l
    -- a line is its trimmed text and the white space behind it
    have hlength : l.length = (Text.trimEnd l).length + ws.length := by
      conv => lhs; rw [hsplit, List.length_append]
    have htrim : Text.trimEnd l = l ↔ ws.length = 0 := by
      constructor
      · intro h
        rw [h] at hlength
        omega
      · intro h
        conv => rhs; rw [hsplit, List.eq_nil_of_length_eq_zero h, List.append_nil]
    have hcons : ∀ (m : List Char) (ms : List (List Char)),
        (unlines (m :: ms)).length = m.length + 1 + (unlines ms).length := by
      intro m ms
      simp [unlines]
      omega
    rw [List.map_cons, hcons, hcons, List.forall_mem_cons, htrim, ← ih.2]
    omega

/-- The text of a literal is kept just if no line that ends inside it ends in white space. -/
theorem Template.text_stripped_iff (t : Template) :
    t.stripped.text = t.text ↔ ∀ line ∈ t.earlier, Text.trimEnd line = line := by
  constructor
  · intro h
    have hlength := congrArg List.length h
    simp only [text, stripped, List.length_append] at hlength
    exact (length_unlines_map_trimEnd t.earlier).2.mp (by omega)
  · intro h
    rw [text, text, stripped, List.map_congr_left h, List.map_id']

/-- A formatted script has the template literals of its source in the same order, without white
space at the ends of the lines that end inside them.  So their texts are kept just if there is no
such white space. -/
theorem templates_format {width : Nat} {source target : String}
    (h : format width source = .ok target) :
    templates target = (templates source).map Template.stripped ∧
      ((templates target).map Template.text = (templates source).map Template.text ↔
        ∀ t ∈ templates source, ∀ line ∈ t.earlier, Text.trimEnd line = line) := by
  obtain ⟨cs, hcs, rfl⟩ := map_eq_ok h
  obtain ⟨written, l, last, hlines, hcode, -, rfl⟩ := formatChars_eq_ok.mp hcs
  have hread := Reading.stripped_formatLines source.toList (r := {}) (l := {}) rfl hlines hcode
  have hfound : templates (String.ofList (unlines written)) =
      (templates source).map Template.stripped := by
    rw [templates, lexemes, String.toList_ofList]
    exact (congrArg Reading.found hread).symm
  refine ⟨hfound, ?_⟩
  rw [hfound, List.map_map, List.map_inj_left]
  exact forall₂_congr fun t _ => t.text_stripped_iff

/-- White space at the end of a line is lost in an accepted script: template literals are not kept
as they are. -/
theorem template_blank_lost :
    ∃ target, format 2 "a = \x60x\ny  \nz\x60;\n" = .ok target ∧
      (templates target).map Template.text ≠
        (templates "a = \x60x\ny  \nz\x60;\n").map Template.text :=
  ⟨"a = \x60x\ny\nz\x60;\n", by decide, by decide⟩

/-- A script with three template literals, one of them inside brackets and over an empty line. -/
def letter : String :=
  "say([\x60Dear you,\t\r\n\r\n  bye \x60, 'x'],\n\n   \x60\\\x60 \x60 + \x60\x60 )"

/-- The literals of such a script, when it is formatted. -/
theorem templates_format_letter :
    ∃ target, format 2 letter = .ok target ∧
      templates target = (templates letter).map Template.stripped ∧
        ((templates target).map Template.text = (templates letter).map Template.text ↔
          ∀ t ∈ templates letter, ∀ line ∈ t.earlier, Text.trimEnd line = line) :=
  ⟨_, rfl, templates_format rfl⟩

end Promptwright.Script
