import Promptwright.Proofs.Text.Lines

/-!
# Lexing, case by case

The equations of `lex` with their side conditions spelled out, what a string literal reads, and
an induction principle that follows the tokens of a line rather than its characters.

## Key results

- `lexLiteral_body`: a literal is read up to the quote behind its body
- `lex_induction`: induction over the tokens that `lex` reads
- `flatMap_text_lex`: the tokens of a line are the pieces of that line
-/

namespace Promptwright.Script

/-! ## What stands between quotes -/

/-- What may stand between quotes `q`: pairs of a backslash and any character, and characters
other than the backslash and the quote. -/
inductive Body (q : Char) : List Char → Prop
  | nil : Body q []
  | pair (c : Char) {b : List Char} : Body q b → Body q ('\\' :: c :: b)
  | plain {c : Char} {b : List Char} : c ≠ '\\' → c ≠ q → Body q b → Body q (c :: b)

/-- What follows a quote `q` that is not closed: a body, perhaps with a lone backslash at its
end. -/
inductive OpenBody (q : Char) : List Char → Prop
  | nil : OpenBody q []
  | lone : OpenBody q ['\\']
  | pair (c : Char) {b : List Char} : OpenBody q b → OpenBody q ('\\' :: c :: b)
  | plain {c : Char} {b : List Char} : c ≠ '\\' → c ≠ q → OpenBody q b → OpenBody q (c :: b)

/-- A quote is not a backslash. -/
theorem quoteChar_ne_backslash (single : Bool) : quoteChar single ≠ '\\' := by
  cases single <;> decide

attribute [local simp] lexLiteral in
/-- Inside a literal, a character that is neither the backslash nor the quote is passed over. -/
theorem lexLiteral_plain {single : Bool} {c : Char} (hc : c ≠ '\\') (hq : c ≠ quoteChar single)
    (done cs : List Char) :
    lexLiteral single done (c :: cs) = lexLiteral single (c :: done) cs := by
  simp [hc, hq]

attribute [local simp] lexLiteral in
/-- The quote ends a literal. -/
theorem lexLiteral_quote (single : Bool) (done cs : List Char) :
    lexLiteral single done (quoteChar single :: cs) =
      push (.literal single done.reverse) (lex .code cs) := by
  cases single <;> simp [quoteChar]

/-- A literal is read up to the quote behind its body. -/
theorem lexLiteral_body {single : Bool} {b : List Char} (hb : Body (quoteChar single) b)
    (done cs : List Char) :
    lexLiteral single done (b ++ quoteChar single :: cs) =
      push (.literal single (done.reverse ++ b)) (lex .code cs) := by
  induction hb generalizing done with
  | nil => rw [List.nil_append, lexLiteral_quote, List.append_nil]
  | pair c _ ih =>
    rw [List.cons_append, List.cons_append, lexLiteral, ih]
    simp
  | plain hc hq _ ih =>
    rw [List.cons_append, lexLiteral_plain hc hq, ih]
    simp

/-- Without a quote behind it, what follows a quote is a token of its own. -/
theorem lexLiteral_openBody {single : Bool} {b : List Char} (hb : OpenBody (quoteChar single) b)
    (done : List Char) :
    lexLiteral single done b = ([.unclosed single (done.reverse ++ b)], .code) := by
  induction hb generalizing done with
  | nil => rw [lexLiteral, List.append_nil]
  | lone =>
    -- a backslash with nothing behind it is read like any other character
    rw [lexLiteral, if_neg (quoteChar_ne_backslash single).symm, lexLiteral]
    · simp
    · simp
  | pair c _ ih =>
    rw [lexLiteral, ih]
    simp
  | plain hc hq _ ih =>
    rw [lexLiteral_plain hc hq, ih]
    simp

/-- What follows a quote either closes or does not. -/
theorem body_or_openBody (q : Char) (hq : q ≠ '\\') (cs : List Char) :
    (∃ b rest, cs = b ++ q :: rest ∧ Body q b) ∨ OpenBody q cs := by
  match cs with
  | [] => exact .inr .nil
  | [c] =>
    by_cases hc : c = '\\'
    · exact .inr (hc ▸ .lone)
    by_cases h : c = q
    · exact .inl ⟨[], [], by rw [h]; rfl, .nil⟩
    · exact .inr (.plain hc h .nil)
  | c :: d :: cs =>
    by_cases hc : c = '\\'
    · subst hc
      -- a backslash and `d` are passed over together
      rcases body_or_openBody q hq cs with ⟨b, rest, rfl, hb⟩ | hb
      · exact .inl ⟨'\\' :: d :: b, rest, rfl, .pair d hb⟩
      · exact .inr (.pair d hb)
    by_cases h : c = q
    · exact .inl ⟨[], d :: cs, by rw [h]; rfl, .nil⟩
    · rcases body_or_openBody q hq (d :: cs) with ⟨b, rest, hcs, hb⟩ | hb
      · exact .inl ⟨c :: b, rest, by rw [hcs]; rfl, .plain hc h hb⟩
      · exact .inr (.plain hc h hb)

/-- White space at the end does not close a literal. -/
theorem OpenBody.append_blank {q : Char} {b ws : List Char} (hb : OpenBody q b)
    (hq : Text.isBlank q = false) (hws : ∀ c ∈ ws, Text.isBlank c = true) :
    OpenBody q (b ++ ws) := by
  have hne : ∀ c ∈ ws, c ≠ '\\' ∧ c ≠ q := fun c hc =>
    ⟨fun e => by have := hws c hc; rw [e] at this; revert this; decide,
      fun e => by have := hws c hc; rw [e, hq] at this; contradiction⟩
  -- a text without backslashes and quotes does not close
  have hblank : ∀ vs : List Char, (∀ c ∈ vs, c ≠ '\\' ∧ c ≠ q) → OpenBody q vs := by
    intro vs hvs
    induction vs with
    | nil => exact .nil
    | cons v vs ih =>
      obtain ⟨h₁, h₂⟩ := hvs v List.mem_cons_self
      exact .plain h₁ h₂ (ih fun c hc => hvs c (List.mem_cons_of_mem v hc))
  induction hb with
  | nil => exact hblank ws hne
  | lone =>
    -- the backslash takes the first blank with it
    cases ws with
    | nil => exact .lone
    | cons w ws => exact .pair w (hblank ws fun c hc => hne c (List.mem_cons_of_mem w hc))
  | pair c _ ih => exact .pair c ih
  | plain h₁ h₂ _ ih => exact .plain h₁ h₂ ih

/-! ## The equations of `lex` -/

/-- A character that code reads on its own, given the rest of the line. -/
structure PlainCode (c : Char) (cs : List Char) : Prop where
  ne_single : c ≠ '\''
  ne_double : c ≠ '"'
  ne_tick : c ≠ '\x60'
  slash : c = '/' → cs.head? ≠ some '/' ∧ cs.head? ≠ some '*'

attribute [local simp] lex in
/-- A quote starts a literal. -/
theorem lex_code_quote (single : Bool) (cs : List Char) :
    lex .code (quoteChar single :: cs) = lexLiteral single [] cs := by
  cases single <;> simp [quoteChar]

/-- A comment goes on until it ends. -/
theorem lex_comment_cons {c : Char} {cs : List Char}
    (h : c = '*' → cs.head? ≠ some '/') :
    lex .comment (c :: cs) = push (.comment [c]) (lex .comment cs) := by
  rw [lex]
  rintro cs' rfl rfl
  exact h rfl rfl

/-- A template literal goes on until it ends. -/
theorem lex_template_cons {c : Char} {cs : List Char} (ht : c ≠ '\x60')
    (h : c = '\\' → cs = []) :
    lex .template (c :: cs) = push (.template [c]) (lex .template cs) := by
  rw [lex]
  · rintro d cs' rfl rfl
    exact absurd (h rfl) (by simp)
  · exact ht

/-- Code is read character by character where nothing else starts. -/
theorem lex_code_cons {c : Char} {cs : List Char} (h : PlainCode c cs) :
    lex .code (c :: cs) = push (codeToken c) (lex .code cs) := by
  rw [lex]
  · rintro cs' rfl rfl
    exact (h.slash rfl).1 rfl
  · rintro cs' rfl rfl
    exact (h.slash rfl).2 rfl
  · exact h.ne_single
  · exact h.ne_double
  · exact h.ne_tick

/-- A literal that is closed is one token. -/
theorem lex_literal {single : Bool} {b : List Char} (hb : Body (quoteChar single) b)
    (cs : List Char) :
    lex .code (quoteChar single :: (b ++ quoteChar single :: cs)) =
      push (.literal single b) (lex .code cs) := by
  rw [lex_code_quote, lexLiteral_body hb]
  rfl

/-- A literal that is not closed is the last token. -/
theorem lex_unclosed {single : Bool} {b : List Char} (hb : OpenBody (quoteChar single) b) :
    lex .code (quoteChar single :: b) = ([.unclosed single b], .code) := by
  rw [lex_code_quote, lexLiteral_openBody hb]
  rfl

/-- Induction over the tokens that `lex` reads. -/
@[elab_as_elim]
theorem lex_induction {P : Mode → List Char → Prop}
    (nil : ∀ mode, P mode [])
    (commentEnd : ∀ cs, P .code cs → P .comment ('*' :: '/' :: cs))
    (commentChar : ∀ c cs, (c = '*' → cs.head? ≠ some '/') → P .comment cs → P .comment (c :: cs))
    (templatePair : ∀ c cs, P .template cs → P .template ('\\' :: c :: cs))
    (templateEnd : ∀ cs, P .code cs → P .template ('\x60' :: cs))
    (templateChar : ∀ c cs, c ≠ '\x60' → (c = '\\' → cs = []) → P .template cs →
      P .template (c :: cs))
    (lineComment : ∀ cs, P .code ('/' :: '/' :: cs))
    (commentStart : ∀ cs, P .comment cs → P .code ('/' :: '*' :: cs))
    (literal : ∀ single b cs, Body (quoteChar single) b → P .code cs →
      P .code (quoteChar single :: (b ++ quoteChar single :: cs)))
    (unclosed : ∀ single b, OpenBody (quoteChar single) b → P .code (quoteChar single :: b))
    (templateStart : ∀ cs, P .template cs → P .code ('\x60' :: cs))
    (codeChar : ∀ c cs, PlainCode c cs → P .code cs → P .code (c :: cs)) :
    ∀ mode cs, P mode cs := by
  -- behind a quote, the claim is about what follows the literal
  let Q (single : Bool) (cs : List Char) : Prop :=
    ∀ b rest, Body (quoteChar single) b → cs = b ++ quoteChar single :: rest → P .code rest
  -- so a quote in code is a literal, closed or not
  have start : ∀ single cs, Q single cs → P .code (quoteChar single :: cs) := by
    intro single cs h
    rcases body_or_openBody _ (quoteChar_ne_backslash single) cs with ⟨b, rest, rfl, hb⟩ | hb
    · exact literal single b rest hb (h b rest hb rfl)
    · exact unclosed single cs hb
  intro mode cs
  induction mode, cs using lex.induct (motive_2 := fun single _ cs => Q single cs) with
  | case1 mode => exact nil mode
  | case2 cs ih => exact commentEnd cs ih
  | case3 c cs h ih =>
    refine commentChar c cs ?_ ih
    rintro rfl hs
    obtain ⟨t, rfl⟩ := List.head?_eq_some_iff.mp hs
    exact h t rfl rfl
  | case4 c cs ih => exact templatePair c cs ih
  | case5 cs ih => exact templateEnd cs ih
  | case6 c cs h ht ih =>
    refine templateChar c cs ht ?_ ih
    rintro rfl
    cases cs with
    | nil => rfl
    | cons d ds => exact (h d ds rfl rfl).elim
  | case7 cs => exact lineComment cs
  | case8 cs ih => exact commentStart cs ih
  | case9 cs ih => exact start true cs ih
  | case10 cs ih => exact start false cs ih
  | case11 cs ih => exact templateStart cs ih
  | case12 c cs h₁ h₂ h₃ h₄ h₅ ih =>
    refine codeChar c cs ⟨h₃, h₄, h₅, ?_⟩ ih
    rintro rfl
    refine ⟨fun hs => ?_, fun hs => ?_⟩
    · obtain ⟨t, rfl⟩ := List.head?_eq_some_iff.mp hs
      exact h₁ t rfl rfl
    · obtain ⟨t, rfl⟩ := List.head?_eq_some_iff.mp hs
      exact h₂ t rfl rfl
  -- the cases of `lexLiteral`: none of them ends the body early
  | case13 single done => intro b rest _ h; simp at h
  | case14 single done c cs ih =>
    intro b rest hb h
    cases hb with
    | nil =>
      rw [List.nil_append, List.cons.injEq] at h
      exact absurd h.1.symm (quoteChar_ne_backslash single)
    | pair d hb =>
      rw [List.cons_append, List.cons_append, List.cons.injEq, List.cons.injEq] at h
      exact ih _ rest hb h.2.2
    | plain hc _ _ =>
      rw [List.cons_append, List.cons.injEq] at h
      exact absurd h.1.symm hc
  | case15 single done cs h ih =>
    intro b rest hb hcs
    cases hb with
    | nil =>
      rw [List.nil_append, List.cons.injEq] at hcs
      exact hcs.2 ▸ ih
    | pair d hb =>
      rw [List.cons_append, List.cons.injEq] at hcs
      exact absurd hcs.1 (quoteChar_ne_backslash single)
    | plain _ hq _ =>
      rw [List.cons_append, List.cons.injEq] at hcs
      exact absurd hcs.1.symm hq
  | case16 single done c cs h hq ih =>
    intro b rest hb hcs
    cases hb with
    | nil =>
      rw [List.nil_append, List.cons.injEq] at hcs
      exact absurd hcs.1 hq
    | pair d hb =>
      rw [List.cons_append, List.cons_append, List.cons.injEq] at hcs
      exact (h d _ hcs.1 hcs.2).elim
    | plain _ _ hb =>
      rw [List.cons_append, List.cons.injEq] at hcs
      exact ih _ rest hb hcs.2

/-! ## The text of the tokens -/

/-- Which character opens a bracket. -/
theorem Bracket.opening_of_ofOpening? {c : Char} {b : Bracket} (h : ofOpening? c = some b) :
    b.opening = c := by
  unfold ofOpening? at h
  split at h
  · next hc => cases h; exact hc.symm
  · split at h
    · next hc => cases h; exact hc.symm
    · split at h
      · next hc => cases h; exact hc.symm
      · contradiction

/-- Which character closes a bracket. -/
theorem Bracket.closing_of_ofClosing? {c : Char} {b : Bracket} (h : ofClosing? c = some b) :
    b.closing = c := by
  unfold ofClosing? at h
  split at h
  · next hc => cases h; exact hc.symm
  · split at h
    · next hc => cases h; exact hc.symm
    · split at h
      · next hc => cases h; exact hc.symm
      · contradiction

/-- A character of code is its own text. -/
@[simp] theorem text_codeToken (c : Char) : (codeToken c).text = [c] := by
  unfold codeToken
  split
  · next b hb => rw [Token.text, Bracket.opening_of_ofOpening? hb]
  · split
    · next b hb => rw [Token.text, Bracket.closing_of_ofClosing? hb]
    · rfl

/-- The tokens of a line are the pieces of that line. -/
theorem flatMap_text_lex (mode : Mode) (cs : List Char) :
    (lex mode cs).1.flatMap Token.text = cs := by
  induction mode, cs using lex_induction with
  | nil mode => rw [lex]; rfl
  | commentEnd cs ih => rw [lex, push, List.flatMap_cons, ih]; rfl
  | commentChar c cs h ih => rw [lex_comment_cons h, push, List.flatMap_cons, ih]; rfl
  | templatePair c cs ih => rw [lex, push, List.flatMap_cons, ih]; rfl
  | templateEnd cs ih => rw [lex, push, List.flatMap_cons, ih]; rfl
  | templateChar c cs ht h ih => rw [lex_template_cons ht h, push, List.flatMap_cons, ih]; rfl
  | lineComment cs => rw [lex, List.flatMap_singleton]; rfl
  | commentStart cs ih => rw [lex, push, List.flatMap_cons, ih]; rfl
  | literal single b cs hb ih =>
    rw [lex_literal hb, push, List.flatMap_cons, ih, Token.text]
    simp
  | unclosed single b hb => rw [lex_unclosed hb, List.flatMap_singleton]; rfl
  | templateStart cs ih => rw [lex, push, List.flatMap_cons, ih]; rfl
  | codeChar c cs h ih => rw [lex_code_cons h, push, List.flatMap_cons, ih, text_codeToken]; rfl

/-- A character on its own is no bracket. -/
theorem codeToken_of_mem_lex {mode : Mode} {cs : List Char} {c : Char}
    (h : .char c ∈ (lex mode cs).1) : codeToken c = .char c := by
  induction mode, cs using lex_induction with
  | nil mode => simp [lex] at h
  | commentEnd cs ih => exact ih (by simpa [lex, push] using h)
  | commentChar d cs hd ih => exact ih (by simpa [lex_comment_cons hd, push] using h)
  | templatePair d cs ih => exact ih (by simpa [lex, push] using h)
  | templateEnd cs ih => exact ih (by simpa [lex, push] using h)
  | templateChar d cs ht hd ih => exact ih (by simpa [lex_template_cons ht hd, push] using h)
  | lineComment cs => simp [lex] at h
  | commentStart cs ih => exact ih (by simpa [lex, push] using h)
  | literal single b cs hb ih => exact ih (by simpa [lex_literal hb, push] using h)
  | unclosed single b hb => simp [lex_unclosed hb] at h
  | templateStart cs ih => exact ih (by simpa [lex, push] using h)
  | codeChar d cs hd ih =>
    rw [lex_code_cons hd, push] at h
    obtain h | h := List.mem_cons.mp h
    · -- the token has the text that it was read from
      have htext := congrArg Token.text h
      rw [text_codeToken, Token.text] at htext
      obtain rfl : c = d := by simpa using htext
      exact h.symm
    · exact ih h

/-- What an opening bracket is read as. -/
@[simp] theorem codeToken_opening (b : Bracket) : codeToken b.opening = .opening b := by
  cases b <;> decide

/-- What a closing bracket is read as. -/
@[simp] theorem codeToken_closing (b : Bracket) : codeToken b.closing = .closing b := by
  cases b <;> decide

end Promptwright.Script
