import Promptwright.Proofs.Script.Lexing

/-!
# What is written is read back

`render` writes the tokens of a line with the quotes of its literals normalized.  Lexing the
result gives the normalized tokens, and ends in the mode in which the line ended.

## Key results

- `lex_render`: lexing a rendered line gives its tokens, normalized
- `render_map_normalize`: normalized tokens are rendered like the tokens themselves
- `tight_render_lex`: a line without white space at its ends is rendered without it
- `mem_render`: rendering adds no character but double quotes
-/

namespace Promptwright.Script

/-! ## Normalized literals -/

/-- A double quote is what `normalize` keeps single quotes for. -/
theorem normalize_single_of_contains {b : List Char} (h : b.contains '"' = true) :
    normalize (.literal true b) = .literal true b := by
  rw [normalize, if_pos h]

/-- Without a double quote between them, single quotes become double ones. -/
theorem normalize_single_of_not_contains {b : List Char} (h : ¬ b.contains '"' = true) :
    normalize (.literal true b) = .literal false (unescapeApostrophes b) := by
  rw [normalize, if_neg h]

/-- Normalizing changes nothing but literals between single quotes. -/
theorem normalize_eq_self {t : Token} (h : ∀ b, t ≠ .literal true b) : normalize t = t := by
  rw [normalize]
  exact h

/-- Normalizing changes nothing but literals between single quotes that hold no double quote. -/
theorem normalize_eq_self_of {t : Token}
    (h : ∀ b, ¬ (t = .literal true b ∧ ¬ b.contains '"' = true)) : normalize t = t := by
  by_cases ht : ∃ b, t = .literal true b
  · obtain ⟨b, rfl⟩ := ht
    exact normalize_single_of_contains (Decidable.byContradiction fun hb => h b ⟨rfl, hb⟩)
  · exact normalize_eq_self fun b e => ht ⟨b, e⟩

/-- A token is normalized at once. -/
@[simp] theorem normalize_normalize (t : Token) : normalize (normalize t) = normalize t := by
  by_cases h : ∃ b, t = .literal true b ∧ ¬ b.contains '"' = true
  · obtain ⟨b, rfl, hb⟩ := h
    rw [normalize_single_of_not_contains hb]
    rfl
  · have ht := normalize_eq_self_of fun b e => h ⟨b, e⟩
    rw [ht, ht]

/-- A character of code is normalized. -/
@[simp] theorem normalize_codeToken (c : Char) : normalize (codeToken c) = codeToken c := by
  apply normalize_eq_self
  intro b h
  have := congrArg Token.text h
  rw [text_codeToken, Token.text] at this
  simp at this

/-- The quote does not stand at the start of what it encloses. -/
theorem Body.head?_ne {q : Char} {b : List Char} (hb : Body q b) (hq : q ≠ '\\') :
    b.head? ≠ some q := by
  cases hb with
  | nil => simp
  | pair c _ => simpa using hq.symm
  | plain _ h _ => simpa using h

/-- Only an apostrophe behind a backslash is unescaped. -/
theorem unescapeApostrophes_cons {c : Char} {cs : List Char}
    (h : c = '\\' → cs.head? ≠ some '\'') :
    unescapeApostrophes (c :: cs) = c :: unescapeApostrophes cs := by
  rw [unescapeApostrophes]
  rintro cs' rfl rfl
  exact h rfl rfl

/-- What stands between single quotes and holds no double quote may stand between double quotes
once its apostrophes are bare. -/
theorem body_unescapeApostrophes {b : List Char} (hb : Body '\'' b)
    (h : ¬ b.contains '"' = true) : Body '"' (unescapeApostrophes b) := by
  induction hb with
  | nil => exact .nil
  | @pair c b hb ih =>
    have ih := ih (by simp_all)
    by_cases hc : c = '\''
    · subst hc
      -- an escaped apostrophe loses its backslash and is plain between double quotes
      rw [unescapeApostrophes]
      exact .plain (by decide) (by decide) ih
    · -- the rest is a body again, so its first character is no apostrophe
      rw [unescapeApostrophes_cons (by simpa using hc),
        unescapeApostrophes_cons fun _ => hb.head?_ne (by decide)]
      exact .pair c ih
  | @plain c b hc hq _ ih =>
    rw [unescapeApostrophes_cons fun e => absurd e hc]
    refine .plain hc ?_ (ih (by simp_all))
    -- the character is no double quote, because there is none in the body
    rintro rfl
    simp at h

/-- A literal with its quotes normalized is a literal again. -/
theorem exists_normalize_literal {single : Bool} {b : List Char} (hb : Body (quoteChar single) b) :
    ∃ s b', normalize (.literal single b) = .literal s b' ∧ Body (quoteChar s) b' := by
  cases single with
  | false => exact ⟨false, b, rfl, hb⟩
  | true =>
    by_cases h : b.contains '"' = true
    · exact ⟨true, b, normalize_single_of_contains h, hb⟩
    · exact ⟨false, _, normalize_single_of_not_contains h, body_unescapeApostrophes hb h⟩

/-! ## Rendering -/

/-- The text of the first token comes first. -/
theorem render_cons (t : Token) (ts : List Token) :
    render (t :: ts) = (normalize t).text ++ render ts := by
  rw [render, List.flatMap_cons]
  rfl

/-- Normalized tokens are rendered like the tokens themselves. -/
@[simp] theorem render_map_normalize (ts : List Token) :
    render (ts.map normalize) = render ts := by
  rw [render, List.flatMap_map]
  simp only [normalize_normalize]
  rfl

/-- What becomes of a character at the edge of a token: it stays, or is a quote that becomes a
double one. -/
def Requoted (before after : Option Char) : Prop :=
  after = before ∨ before = some '\'' ∧ after = some '"'

/-- A character that is no apostrophe stays. -/
theorem Requoted.eq {a b : Option Char} (h : Requoted a b) (ha : a ≠ some '\'') : b = a := by
  rcases h with h | ⟨h, -⟩
  · exact h
  · exact absurd h ha

/-- A character that is no quote has been there before. -/
theorem Requoted.eq_of_ne {a b : Option Char} (h : Requoted a b) (hb : b ≠ some '"') : b = a := by
  rcases h with h | ⟨-, h⟩
  · exact h
  · exact absurd h hb

/-- Edges of texts that are put together. -/
theorem Requoted.or {a a' b b' : Option Char} (h : Requoted a a') (h' : Requoted b b') :
    Requoted (a.or b) (a'.or b') := by
  rcases h with rfl | ⟨rfl, rfl⟩
  · cases a' with
    | none => exact h'
    | some c => exact .inl rfl
  · exact .inr ⟨rfl, rfl⟩

/-- A literal ends in its quote. -/
@[simp] theorem getLast?_text_literal (single : Bool) (b : List Char) :
    (Token.literal single b).text.getLast? = some (quoteChar single) :=
  List.getLast?_concat

/-- Normalizing a token changes at most the quotes at its edges. -/
theorem requoted_normalize (t : Token) :
    Requoted t.text.head? (normalize t).text.head? ∧
      Requoted t.text.getLast? (normalize t).text.getLast? := by
  by_cases h : ∃ b, t = .literal true b ∧ ¬ b.contains '"' = true
  · obtain ⟨b, rfl, hb⟩ := h
    rw [normalize_single_of_not_contains hb]
    exact ⟨.inr ⟨rfl, rfl⟩, .inr ⟨getLast?_text_literal .., getLast?_text_literal ..⟩⟩
  · rw [normalize_eq_self_of fun b e => h ⟨b, e⟩]
    exact ⟨.inl rfl, .inl rfl⟩

/-- Rendering changes at most the quotes at the edges of a line. -/
theorem requoted_render (ts : List Token) :
    Requoted (ts.flatMap Token.text).head? (render ts).head? ∧
      Requoted (ts.flatMap Token.text).getLast? (render ts).getLast? := by
  induction ts with
  | nil => exact ⟨.inl rfl, .inl rfl⟩
  | cons t ts ih =>
    rw [render_cons, List.flatMap_cons]
    simp only [List.head?_append, List.getLast?_append]
    exact ⟨(requoted_normalize t).1.or ih.1, ih.2.or (requoted_normalize t).2⟩

/-- The first character of a line, as it is written. -/
theorem requoted_head?_render_lex (mode : Mode) (cs : List Char) :
    Requoted cs.head? (render (lex mode cs).1).head? := by
  have := (requoted_render (lex mode cs).1).1
  rwa [flatMap_text_lex] at this

/-- The last character of a line, as it is written. -/
theorem requoted_getLast?_render_lex (mode : Mode) (cs : List Char) :
    Requoted cs.getLast? (render (lex mode cs).1).getLast? := by
  have := (requoted_render (lex mode cs).1).2
  rwa [flatMap_text_lex] at this

/-- Rendering puts no new slash or star at the start of a line. -/
theorem head?_render_lex_ne {mode : Mode} {cs : List Char} {c : Char} (hc : c ≠ '"')
    (h : cs.head? ≠ some c) : (render (lex mode cs).1).head? ≠ some c := by
  intro hr
  have := requoted_head?_render_lex mode cs
  rw [hr] at this
  exact h (this.eq_of_ne (by simpa using hc)).symm

/-! ## Lexing again -/

/-- Lexing a rendered line gives its tokens, normalized, and ends in the same mode. -/
theorem lex_render (mode : Mode) (cs : List Char) :
    lex mode (render (lex mode cs).1) = ((lex mode cs).1.map normalize, (lex mode cs).2) := by
  induction mode, cs using lex_induction with
  | nil mode => rw [lex]; rfl
  | commentEnd cs ih =>
    rw [lex, push, render_cons]
    show lex .comment ('*' :: '/' :: render _) = _
    rw [lex, ih]
    rfl
  | commentChar c cs h ih =>
    rw [lex_comment_cons h, push, render_cons]
    -- a star here is not followed by a slash, since none was there before
    show lex .comment (c :: render _) = _
    rw [lex_comment_cons fun e => head?_render_lex_ne (by decide) (h e), ih]
    rfl
  | templatePair c cs ih =>
    rw [lex, push, render_cons]
    show lex .template ('\\' :: c :: render _) = _
    rw [lex, ih]
    rfl
  | templateEnd cs ih =>
    rw [lex, push, render_cons]
    show lex .template ('\x60' :: render _) = _
    rw [lex, ih]
    rfl
  | templateChar c cs ht h ih =>
    rw [lex_template_cons ht h, push, render_cons]
    show lex .template (c :: render _) = _
    rw [lex_template_cons ht, ih]
    · rfl
    -- a backslash at the end of the line has nothing behind it after rendering either
    · intro e
      rw [h e, lex]
      rfl
  | lineComment cs =>
    rw [lex, render_cons]
    show lex .code ('/' :: '/' :: (cs ++ [])) = _
    rw [List.append_nil, lex]
    rfl
  | commentStart cs ih =>
    rw [lex, push, render_cons]
    show lex .code ('/' :: '*' :: render _) = _
    rw [lex, ih]
    rfl
  | literal single b cs hb ih =>
    -- the quotes may change, and then the body changes with them
    obtain ⟨s, b', hn, hb'⟩ := exists_normalize_literal hb
    rw [lex_literal hb, push, render_cons, hn]
    show lex .code (quoteChar s :: (b' ++ [quoteChar s]) ++ render _) = _
    rw [List.cons_append, List.append_assoc, List.singleton_append, lex_literal hb', ih,
      List.map_cons, hn]
    rfl
  | unclosed single b hb =>
    rw [lex_unclosed hb, render_cons]
    show lex .code (quoteChar single :: b ++ []) = _
    rw [List.append_nil, lex_unclosed hb]
    rfl
  | templateStart cs ih =>
    rw [lex, push, render_cons]
    show lex .code ('\x60' :: render _) = _
    rw [lex, ih]
    rfl
  | codeChar c cs h ih =>
    rw [lex_code_cons h, push, render_cons, normalize_codeToken, text_codeToken,
      List.singleton_append, lex_code_cons, ih, List.map_cons, normalize_codeToken]
    · rfl
    -- a slash still starts no comment, as neither mark gets to the front of a line
    · refine ⟨h.ne_single, h.ne_double, h.ne_tick, fun e => ?_⟩
      exact ⟨head?_render_lex_ne (by decide) (h.slash e).1,
        head?_render_lex_ne (by decide) (h.slash e).2⟩

/-! ## The edges of a rendered line -/

/-- A line without white space at its ends is rendered without it. -/
theorem tight_render_lex {cs : List Char} (h : Text.Tight cs) (mode : Mode) :
    Text.Tight (render (lex mode cs).1) := by
  -- a requoted character is white space only if it was before
  have key : ∀ a b : Option Char, Requoted a b → (∀ c, a = some c → Text.isBlank c = false) →
      ∀ c, b = some c → Text.isBlank c = false := by
    rintro a b (rfl | ⟨-, rfl⟩) ha c hc
    · exact ha c hc
    · cases hc
      decide
  refine ⟨?_, key _ _ (requoted_head?_render_lex mode cs) h.head,
    key _ _ (requoted_getLast?_render_lex mode cs) h.last⟩
  -- a line that is rendered as nothing was empty
  intro hr
  have := requoted_head?_render_lex mode cs
  rw [hr, List.head?_nil] at this
  have hcs := this.eq_of_ne (by simp)
  exact h.ne_nil (List.head?_eq_none_iff.mp hcs.symm)

/-- Bare apostrophes are all that `unescapeApostrophes` leaves of escaped ones. -/
theorem mem_of_mem_unescapeApostrophes {b : List Char} {c : Char}
    (h : c ∈ unescapeApostrophes b) : c ∈ b := by
  fun_induction unescapeApostrophes b with
  | case1 cs ih =>
    rcases List.mem_cons.mp h with rfl | h
    · simp
    · exact List.mem_cons_of_mem _ (List.mem_cons_of_mem _ (ih h))
  | case2 d cs hd ih =>
    rcases List.mem_cons.mp h with rfl | h
    · exact List.mem_cons_self
    · exact List.mem_cons_of_mem _ (ih h)
  | case3 => exact h

/-- Rendering adds no character but double quotes. -/
theorem mem_render {ts : List Token} {c : Char} (h : c ∈ render ts) :
    c ∈ ts.flatMap Token.text ∨ c = '"' := by
  rw [render, List.mem_flatMap] at h
  obtain ⟨t, ht, hc⟩ := h
  suffices c ∈ t.text ∨ c = '"' from
    this.imp_left fun h => List.mem_flatMap.mpr ⟨t, ht, h⟩
  by_cases hb : ∃ b, t = .literal true b ∧ ¬ b.contains '"' = true
  · obtain ⟨b, rfl, hb⟩ := hb
    rw [normalize_single_of_not_contains hb] at hc
    simp only [Token.text, quoteChar, List.mem_append, List.mem_cons, Bool.false_eq_true,
      ↓reduceIte, List.not_mem_nil, or_false] at hc ⊢
    -- one of the two quotes, or a character between them
    rcases hc with (hc | hc) | hc
    · exact .inr hc
    · exact .inl (.inl (.inr (mem_of_mem_unescapeApostrophes hc)))
    · exact .inr hc
  · rw [normalize_eq_self_of fun b e => hb ⟨b, e⟩] at hc
    exact .inl hc

end Promptwright.Script
