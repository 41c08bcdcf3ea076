import Promptwright.Proofs.Script.Lexing

/-!
# Lexing a whole script

`lexemes` reads a script from its first character to its last one.  It knows nothing of lines but
where they end: a comment or a template literal goes on until it is closed, and only a string
literal has to be closed on its line.  `lex`, which formatting relies on, reads a single line.  The
two agree, line by line.

## Key results

- `flatMap_text_lexemesFrom`: the lexemes of a script are the pieces of that script
- `lexemesFrom_line`: a line of the script is read as `lex` reads it
- `lexemesFrom_unlines`: the same for lines one after the other
-/

namespace Promptwright.Script

/-! ## Lexemes -/

/-- Where in a script a character stands. -/
inductive Place
  | code
  /-- In a comment that ends with its line. -/
  | line
  | block
  | template
deriving DecidableEq, Repr

/-- A piece of a script.  Comments and template literals come in single characters, with the marks
that start and end them. -/
inductive Lexeme
  | code (c : Char)
  /-- A string literal: whether its quotes are single ones, and what is between them. -/
  | literal (single : Bool) (body : List Char)
  | comment (c : Char)
  | template (c : Char)
  | lineEnd
  /-- A string literal that is not closed on its line, or the end of a script inside a comment or
  a template literal. -/
  | unclosed (text : List Char)
deriving DecidableEq, Repr

/-- The characters that a lexeme was read from. -/
def Lexeme.text : Lexeme → List Char
  | .code c => [c]
  | .literal single body => quoteChar single :: body ++ [quoteChar single]
  | .comment c => [c]
  | .template c => [c]
  | .lineEnd => ['\n']
  | .unclosed text => text

mutual

/-- The lexemes of a script from some place on. -/
def lexemesFrom : Place → List Char → List Lexeme
  | .code, [] => []
  | .code, '/' :: '/' :: cs => .comment '/' :: .comment '/' :: lexemesFrom .line cs
  | .code, '/' :: '*' :: cs => .comment '/' :: .comment '*' :: lexemesFrom .block cs
  | .code, '\'' :: cs => literalFrom true [] cs
  | .code, '"' :: cs => literalFrom false [] cs
  | .code, '\x60' :: cs => .template '\x60' :: lexemesFrom .template cs
  | .code, '\n' :: cs => .lineEnd :: lexemesFrom .code cs
  | .code, c :: cs => .code c :: lexemesFrom .code cs
  | .line, [] => []
  | .line, '\n' :: cs => .lineEnd :: lexemesFrom .code cs
  | .line, c :: cs => .comment c :: lexemesFrom .line cs
  | .block, [] => [.unclosed []]
  | .block, '*' :: '/' :: cs => .comment '*' :: .comment '/' :: lexemesFrom .code cs
  | .block, '\n' :: cs => .lineEnd :: lexemesFrom .block cs
  | .block, c :: cs => .comment c :: lexemesFrom .block cs
  | .template, [] => [.unclosed []]
  | .template, '\\' :: '\n' :: cs => .template '\\' :: .lineEnd :: lexemesFrom .template cs
  | .template, '\\' :: c :: cs => .template '\\' :: .template c :: lexemesFrom .template cs
  | .template, '\x60' :: cs => .template '\x60' :: lexemesFrom .code cs
  | .template, '\n' :: cs => .lineEnd :: lexemesFrom .template cs
  | .template, c :: cs => .template c :: lexemesFrom .template cs
  termination_by structural _ cs => cs

/-- The lexemes of a script from inside a string literal on, after the characters in `done`, which
are in reverse. -/
def literalFrom (single : Bool) (done : List Char) : List Char → List Lexeme
  | [] => [.unclosed (quoteChar single :: done.reverse)]
  | '\n' :: cs => .unclosed (quoteChar single :: done.reverse) :: .lineEnd :: lexemesFrom .code cs
  | '\\' :: '\n' :: cs =>
    .unclosed (quoteChar single :: ('\\' :: done).reverse) :: .lineEnd :: lexemesFrom .code cs
  | '\\' :: c :: cs => literalFrom single (c :: '\\' :: done) cs
  | c :: cs =>
    if c = quoteChar single then .literal single done.reverse :: lexemesFrom .code cs
    else literalFrom single (c :: done) cs
  termination_by structural cs => cs

end

/-- The lexemes of a script. -/
def lexemes (script : String) : List Lexeme := lexemesFrom .code script.toList

example : lexemes "a('\\'') // \"b\n" =
    [.code 'a', .code '(', .literal true ['\\', '\''], .code ')', .code ' ', .comment '/',
      .comment '/', .comment ' ', .comment '"', .comment 'b', .lineEnd] := by decide

attribute [local simp] lexemesFrom literalFrom in
/-- The lexemes of a script are the pieces of that script. -/
theorem flatMap_text_lexemesFrom (place : Place) (cs : List Char) :
    (lexemesFrom place cs).flatMap Lexeme.text = cs := by
  induction place, cs using lexemesFrom.induct (motive_2 := fun single done cs =>
    (literalFrom single done cs).flatMap Lexeme.text = quoteChar single :: done.reverse ++ cs) with
  | _ => simp_all [Lexeme.text, quoteChar]

/-! ## Equations with their side conditions -/

/-- A rest that does not go on with the line before it. -/
def AtLineEnd (rest : List Char) : Prop := ∀ c, rest.head? = some c → c = '\n'

/-- Nothing else follows a line than its end. -/
theorem AtLineEnd.head?_append_ne {rest : List Char} (h : AtLineEnd rest) {cs : List Char}
    {d : Char} (hcs : cs.head? ≠ some d) (hd : d ≠ '\n') : (cs ++ rest).head? ≠ some d := by
  cases cs with
  | nil => exact fun hd' => hd (h d hd')
  | cons c cs => exact hcs

/-- A text may end. -/
theorem atLineEnd_nil : AtLineEnd [] := nofun

/-- Behind a line, the rest of a script starts with the end of that line. -/
theorem atLineEnd_newline (cs : List Char) : AtLineEnd ('\n' :: cs) := by
  intro c hc
  simpa using hc.symm

/-- Code is read character by character where nothing else starts. -/
theorem lexemesFrom_code_cons {c : Char} {cs : List Char} (h : PlainCode c cs) (hn : c ≠ '\n') :
    lexemesFrom .code (c :: cs) = .code c :: lexemesFrom .code cs := by
  rw [lexemesFrom]
  · rintro cs' rfl rfl
    exact (h.slash rfl).1 rfl
  · rintro cs' rfl rfl
    exact (h.slash rfl).2 rfl
  · exact h.ne_single
  · exact h.ne_double
  · exact h.ne_tick
  · exact hn

/-- A comment goes on until it ends. -/
theorem lexemesFrom_block_cons {c : Char} {cs : List Char} (h : c = '*' → cs.head? ≠ some '/')
    (hn : c ≠ '\n') : lexemesFrom .block (c :: cs) = .comment c :: lexemesFrom .block cs := by
  rw [lexemesFrom]
  · rintro cs' rfl rfl
    exact h rfl rfl
  · exact hn

/-- A template literal goes on until it ends. -/
theorem lexemesFrom_template_cons {c : Char} {cs : List Char} (ht : c ≠ '\x60') (hn : c ≠ '\n')
    (h : c = '\\' → AtLineEnd cs) :
    lexemesFrom .template (c :: cs) = .template c :: lexemesFrom .template cs := by
  by_cases hc : c = '\\'
  · subst hc
    cases cs with
    | nil => simp [lexemesFrom]
    | cons d cs =>
      -- only the end of the line may follow, and it is not escaped
      obtain rfl : d = '\n' := h rfl d rfl
      simp [lexemesFrom]
  · simp [lexemesFrom, hc]

/-- The rest of a line after two slashes is a comment. -/
theorem lexemesFrom_line_comment {text : List Char} (hn : '\n' ∉ text) (rest : List Char) :
    lexemesFrom .line (text ++ rest) = text.map .comment ++ lexemesFrom .line rest := by
  induction text with
  | nil => rfl
  | cons c text ih =>
    have hc : c ≠ '\n' := fun e => hn (e ▸ List.mem_cons_self)
    have ih := ih fun h => hn (List.mem_cons_of_mem c h)
    rw [List.cons_append, lexemesFrom, ih]
    · rfl
    · exact hc

/-- Where a line ends, so does its comment. -/
theorem lexemesFrom_line_atLineEnd {rest : List Char} (hr : AtLineEnd rest) :
    lexemesFrom .line rest = lexemesFrom .code rest := by
  cases rest with
  | nil => rfl
  | cons c rest =>
    obtain rfl : c = '\n' := hr c rfl
    rw [lexemesFrom, lexemesFrom]

/-- A quote starts a literal. -/
theorem lexemesFrom_code_quote (single : Bool) (cs : List Char) :
    lexemesFrom .code (quoteChar single :: cs) = literalFrom single [] cs := by
  cases single <;> simp [quoteChar, lexemesFrom]

/-- Inside a literal, a character that is neither the backslash nor the quote is passed over. -/
theorem literalFrom_plain {single : Bool} {c : Char} (hc : c ≠ '\\') (hq : c ≠ quoteChar single)
    (hn : c ≠ '\n') (done cs : List Char) :
    literalFrom single done (c :: cs) = literalFrom single (c :: done) cs := by
  simp [literalFrom, hc, hq]

/-- Inside a literal, a backslash takes the next character of its line with it. -/
theorem literalFrom_pair {c : Char} (hn : c ≠ '\n') (single : Bool) (done cs : List Char) :
    literalFrom single done ('\\' :: c :: cs) = literalFrom single (c :: '\\' :: done) cs := by
  simp [literalFrom]

/-- A literal is read up to the quote behind its body. -/
theorem literalFrom_body {single : Bool} {b : List Char} (hb : Body (quoteChar single) b)
    (hn : '\n' ∉ b) (done cs : List Char) :
    literalFrom single done (b ++ quoteChar single :: cs) =
      .literal single (done.reverse ++ b) :: lexemesFrom .code cs := by
  induction hb generalizing done with
  | nil => cases single <;> simp [literalFrom, quoteChar]
  | pair c _ ih =>
    simp only [List.mem_cons, not_or] at hn
    rw [List.cons_append, List.cons_append, literalFrom_pair (Ne.symm hn.2.1), ih hn.2.2]
    simp
  | plain hc hq _ ih =>
    simp only [List.mem_cons, not_or] at hn
    rw [List.cons_append, literalFrom_plain hc hq (Ne.symm hn.1), ih hn.2]
    simp

/-- A literal that is closed on its line is one lexeme. -/
theorem lexemesFrom_literal {single : Bool} {b : List Char} (hb : Body (quoteChar single) b)
    (hn : '\n' ∉ b) (cs : List Char) :
    lexemesFrom .code (quoteChar single :: (b ++ quoteChar single :: cs)) =
      .literal single b :: lexemesFrom .code cs := by
  rw [lexemesFrom_code_quote, literalFrom_body hb hn]
  rfl

/-- Without a quote behind it, what follows a quote is not closed on its line. -/
theorem literalFrom_openBody {single : Bool} {b rest : List Char}
    (hb : OpenBody (quoteChar single) b) (hn : '\n' ∉ b) (hr : AtLineEnd rest)
    (done : List Char) :
    literalFrom single done (b ++ rest) =
      .unclosed (quoteChar single :: (done.reverse ++ b)) :: lexemesFrom .code rest := by
  induction hb generalizing done with
  | nil =>
    cases rest with
    | nil => simp [literalFrom, lexemesFrom]
    | cons c rest =>
      obtain rfl : c = '\n' := hr c rfl
      simp [literalFrom, lexemesFrom]
  | lone =>
    -- the end of the line is not escaped
    cases rest with
    | nil => cases single <;> simp [literalFrom, lexemesFrom, quoteChar]
    | cons c rest =>
      obtain rfl : c = '\n' := hr c rfl
      simp [literalFrom, lexemesFrom]
  | pair c _ ih =>
    simp only [List.mem_cons, not_or] at hn
    rw [List.cons_append, List.cons_append, literalFrom_pair (Ne.symm hn.2.1), ih hn.2.2]
    simp
  | plain hc hq _ ih =>
    simp only [List.mem_cons, not_or] at hn
    rw [List.cons_append, literalFrom_plain hc hq (Ne.symm hn.1), ih hn.2]
    simp

/-! ## One line -/

/-- The lexemes of a token of a line. -/
def Token.lexemes : Token → List Lexeme
  | .char c => [.code c]
  | .opening b => [.code b.opening]
  | .closing b => [.code b.closing]
  | .literal single body => [.literal single body]
  | .unclosed single body => [.unclosed (quoteChar single :: body)]
  | .lineComment text => text.map .comment
  | .comment text => text.map .comment
  | .template text => text.map .template

/-- The place where a line goes on that starts or ends in a mode. -/
def Mode.place : Mode → Place
  | .code => .code
  | .comment => .block
  | .template => .template

/-- A token of code that is a single character is one lexeme. -/
@[simp] theorem lexemes_codeToken (c : Char) : (codeToken c).lexemes = [.code c] := by
  unfold codeToken
  split
  · next b hb => rw [Token.lexemes, Bracket.opening_of_ofOpening? hb]
  · split
    · next b hb => rw [Token.lexemes, Bracket.closing_of_ofClosing? hb]
    · rfl

/-- The lexemes of a line. -/
def lineLexemes (mode : Mode) (line : List Char) : List Lexeme :=
  (lex mode line).1.flatMap Token.lexemes

/-- A line of the script is read as `lex` reads it. -/
theorem lexemesFrom_line {line rest : List Char} (hn : '\n' ∉ line) (hr : AtLineEnd rest)
    (mode : Mode) :
    lexemesFrom mode.place (line ++ rest) =
      lineLexemes mode line ++ lexemesFrom (lex mode line).2.place rest := by
  unfold lineLexemes
  induction mode, line using lex_induction with
  | nil mode => rw [lex]; rfl
  | commentEnd cs ih =>
    simp only [List.mem_cons, not_or] at hn
    rw [lex]
    show lexemesFrom .block ('*' :: '/' :: (cs ++ rest)) = _
    rw [lexemesFrom]
    exact congrArg (fun ls => Lexeme.comment '*' :: .comment '/' :: ls) (ih hn.2.2)
  | commentChar c cs h ih =>
    simp only [List.mem_cons, not_or] at hn
    rw [lex_comment_cons h]
    show lexemesFrom .block (c :: (cs ++ rest)) = _
    rw [lexemesFrom_block_cons (fun e => hr.head?_append_ne (h e) (by decide)) (Ne.symm hn.1)]
    exact congrArg (Lexeme.comment c :: ·) (ih hn.2)
  | templatePair c cs ih =>
    simp only [List.mem_cons, not_or] at hn
    rw [lex]
    show lexemesFrom .template ('\\' :: c :: (cs ++ rest)) = _
    rw [lexemesFrom]
    · exact congrArg (fun ls => Lexeme.template '\\' :: .template c :: ls) (ih hn.2.2)
    · exact Ne.symm hn.2.1
  | templateEnd cs ih =>
    simp only [List.mem_cons, not_or] at hn
    rw [lex]
    show lexemesFrom .template ('\x60' :: (cs ++ rest)) = _
    rw [lexemesFrom]
    exact congrArg (Lexeme.template '\x60' :: ·) (ih hn.2)
  | templateChar c cs ht h ih =>
    simp only [List.mem_cons, not_or] at hn
    rw [lex_template_cons ht h]
    show lexemesFrom .template (c :: (cs ++ rest)) = _
    rw [lexemesFrom_template_cons ht (Ne.symm hn.1)]
    · exact congrArg (Lexeme.template c :: ·) (ih hn.2)
    -- a backslash at the end of the line is followed by nothing else
    · intro e
      rw [h e]
      exact hr
  | lineComment cs =>
    simp only [List.mem_cons, not_or] at hn
    rw [lex]
    show lexemesFrom .code ('/' :: '/' :: (cs ++ rest)) = _
    rw [lexemesFrom, lexemesFrom_line_comment hn.2.2, lexemesFrom_line_atLineEnd hr]
    simp [Token.lexemes, Mode.place]
  | commentStart cs ih =>
    simp only [List.mem_cons, not_or] at hn
    rw [lex]
    show lexemesFrom .code ('/' :: '*' :: (cs ++ rest)) = _
    rw [lexemesFrom]
    exact congrArg (fun ls => Lexeme.comment '/' :: .comment '*' :: ls) (ih hn.2.2)
  | literal single b cs hb ih =>
    simp only [List.mem_cons, List.mem_append, not_or] at hn
    rw [lex_literal hb]
    show lexemesFrom .code (quoteChar single :: (b ++ quoteChar single :: cs) ++ rest) = _
    rw [List.cons_append, List.append_assoc, List.cons_append, lexemesFrom_literal hb hn.2.1]
    exact congrArg (Lexeme.literal single b :: ·) (ih hn.2.2.2)
  | unclosed single b hb =>
    simp only [List.mem_cons, not_or] at hn
    rw [lex_unclosed hb]
    show lexemesFrom .code (quoteChar single :: (b ++ rest)) = _
    rw [lexemesFrom_code_quote, literalFrom_openBody hb hn.2 hr]
    rfl
  | templateStart cs ih =>
    simp only [List.mem_cons, not_or] at hn
    rw [lex]
    show lexemesFrom .code ('\x60' :: (cs ++ rest)) = _
    rw [lexemesFrom]
    exact congrArg (Lexeme.template '\x60' :: ·) (ih hn.2)
  | codeChar c cs h ih =>
    simp only [List.mem_cons, not_or] at hn
    rw [lex_code_cons h]
    show lexemesFrom .code (c :: (cs ++ rest)) = _
    have hplain : PlainCode c (cs ++ rest) :=
      ⟨h.ne_single, h.ne_double, h.ne_tick, fun e =>
        ⟨hr.head?_append_ne (h.slash e).1 (by decide),
          hr.head?_append_ne (h.slash e).2 (by decide)⟩⟩
    rw [lexemesFrom_code_cons hplain (Ne.symm hn.1), push, List.flatMap_cons, lexemes_codeToken]
    exact congrArg (Lexeme.code c :: ·) (ih hn.2)

/-- A line without template literals does not end in one. -/
theorem mode_lex_ne_template {mode : Mode} {line : List Char} (hm : mode ≠ .template)
    (h : ∀ c, .template c ∉ lineLexemes mode line) : (lex mode line).2 ≠ .template := by
  unfold lineLexemes at h
  -- along the lexer: a literal would begin with a lexeme of its own
  induction mode, line using lex_induction with
  | nil mode => rwa [lex]
  | commentEnd cs ih =>
    simpa [lex, push] using ih (by decide) (by simpa [lex, push, Token.lexemes] using h)
  | commentChar c cs hc ih =>
    simpa [lex_comment_cons hc, push] using
      ih (by decide) (by simpa [lex_comment_cons hc, push, Token.lexemes] using h)
  | templatePair c cs ih => exact absurd rfl hm
  | templateEnd cs ih => exact absurd rfl hm
  | templateChar c cs ht hc ih => exact absurd rfl hm
  | lineComment cs => simp [lex]
  | commentStart cs ih =>
    simpa [lex, push] using ih (by decide) (by simpa [lex, push, Token.lexemes] using h)
  | literal single b cs hb ih =>
    simpa [lex_literal hb, push] using
      ih (by decide) (by simpa [lex_literal hb, push, Token.lexemes] using h)
  | unclosed single b hb => simp [lex_unclosed hb]
  | templateStart cs ih => exact absurd (by simp [lex, push, Token.lexemes]) (h '\x60')
  | codeChar c cs hc ih =>
    simpa [lex_code_cons hc, push] using
      ih (by decide) (by simpa [lex_code_cons hc, push] using h)

/-! ## Lines one after the other -/

/-- Behind the end of a line, a script is read from where the line ended. -/
theorem lexemesFrom_lineEnd (mode : Mode) (cs : List Char) :
    lexemesFrom mode.place ('\n' :: cs) = .lineEnd :: lexemesFrom mode.place cs := by
  cases mode <;> simp [Mode.place, lexemesFrom]

/-- A line and its end are read one after the other. -/
theorem lexemesFrom_append_newline {line : List Char} (hn : '\n' ∉ line) (mode : Mode)
    (rest : List Char) :
    lexemesFrom mode.place (line ++ '\n' :: rest) =
      lineLexemes mode line ++ .lineEnd :: lexemesFrom (lex mode line).2.place rest := by
  rw [lexemesFrom_line hn (atLineEnd_newline rest), lexemesFrom_lineEnd]

/-- The last line of the script may have no end. -/
theorem lexemesFrom_last {line : List Char} (hn : '\n' ∉ line) (mode : Mode) :
    lexemesFrom mode.place line =
      lineLexemes mode line ++ lexemesFrom (lex mode line).2.place [] := by
  have hread := lexemesFrom_line hn atLineEnd_nil mode
  rwa [List.append_nil] at hread

/-- The lexemes of lines with their ends, and the mode in which they end. -/
def linesLexemes : Mode → List (List Char) → List Lexeme × Mode
  | mode, [] => ([], mode)
  | mode, l :: ls =>
    let rest := linesLexemes (lex mode l).2 ls
    (lineLexemes mode l ++ .lineEnd :: rest.1, rest.2)

/-- Lines with their ends are read one by one. -/
theorem lexemesFrom_unlines {ls : List (List Char)} (hn : ∀ l ∈ ls, '\n' ∉ l) (mode : Mode)
    (rest : List Char) : lexemesFrom mode.place (unlines ls ++ rest) =
      (linesLexemes mode ls).1 ++ lexemesFrom (linesLexemes mode ls).2.place rest := by
  induction ls generalizing mode with
  | nil => rfl
  | cons l ls ih =>
    have hl : '\n' ∉ l := hn l List.mem_cons_self
    have ih := ih (fun l hl => hn l (List.mem_cons_of_mem _ hl)) (lex mode l).2
    have hsplit : unlines (l :: ls) ++ rest = l ++ '\n' :: (unlines ls ++ rest) := by
      simp [unlines]
    rw [hsplit, lexemesFrom_append_newline hl, ih, linesLexemes]
    simp

end Promptwright.Script
