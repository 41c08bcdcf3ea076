import Promptwright.Proofs.Script.Acceptance
import Promptwright.Proofs.Script.CodeText

/-!
# Pieces of scripts

A piece of a script starts and ends in code, so that it is read in the same way wherever it stands
in code: `ReadAs` says as which lexemes.  A `Piece` also closes all that it starts, apart from
brackets: some brackets are open before it and some after it.  Pieces are put together from code,
words, string literals and comments, and a script that is a piece without open brackets is accepted
by formatting.

## Key results

- `Piece.append`, `Piece.beneath`, `Piece.wrap`: pieces in a row and between brackets
- `Piece.code`, `Piece.word`, `Piece.literal`, `Piece.comment`: the smallest pieces
- `Piece.exists_format_eq_ok`: a piece that leaves no bracket open is accepted
-/

namespace Promptwright.Script

/-! ## Texts in a row -/

/-- What relates texts in a row to lists in a row relates texts for the items of a list to lists for
them. -/
theorem flatMap_induction {α β : Type} {R : String → List β → Prop} (empty : R "" [])
    (append : ∀ {t u xs ys}, R t xs → R u ys → R (t ++ u) (xs ++ ys)) {f : α → String}
    {g : α → List β} {as : List α} (h : ∀ a ∈ as, R (f a) (g a)) :
    R ((as.map f).foldr (· ++ ·) "") (as.flatMap g) := by
  induction as with
  | nil => exact empty
  | cons a as ih =>
    exact append (h a List.mem_cons_self) (ih fun b hb => h b (List.mem_cons_of_mem _ hb))

/-- What holds of two texts in a row holds of any number of them. -/
theorem foldr_induction {P : String → Prop} (empty : P "")
    (append : ∀ {t u}, P t → P u → P (t ++ u)) {ts : List String} (h : ∀ t ∈ ts, P t) :
    P (ts.foldr (· ++ ·) "") := by
  induction ts with
  | nil => exact empty
  | cons t ts ih =>
    exact append (h t List.mem_cons_self) (ih fun u hu => h u (List.mem_cons_of_mem _ hu))

/-- So it does with another text between any two of them. -/
theorem intercalate_induction {P : String → Prop} (empty : P "")
    (append : ∀ {t u}, P t → P u → P (t ++ u)) {sep : String} (hsep : P sep) {ts : List String}
    (h : ∀ t ∈ ts, P t) : P (sep.intercalate ts) := by
  induction ts with
  | nil => exact empty
  | cons t ts ih =>
    have ih := ih fun u hu => h u (List.mem_cons_of_mem _ hu)
    cases ts with
    | nil => exact h t List.mem_cons_self
    | cons u us =>
      rw [String.intercalate_cons_cons]
      exact append (append (h t List.mem_cons_self) hsep) ih

/-! ## Reading a part of a script -/

/-- A text that is read as some lexemes, whatever follows it. -/
def ReadAs (t : String) (ls : List Lexeme) : Prop :=
  ∀ rest, lexemesFrom .code (t.toList ++ rest) = ls ++ lexemesFrom .code rest

namespace ReadAs

variable {t u : String} {ls ms : List Lexeme}

/-- Texts in a row are read one by one. -/
theorem append (h : ReadAs t ls) (h' : ReadAs u ms) : ReadAs (t ++ u) (ls ++ ms) := by
  intro rest
  rw [String.toList_append, List.append_assoc, h, h', List.append_assoc]

/-- The lexemes of a script. -/
theorem lexemes_eq (h : ReadAs t ls) : lexemes t = ls := by
  have hend := h []
  rwa [List.append_nil, lexemesFrom, List.append_nil] at hend

end ReadAs

/-- What a character of code is read as. -/
def codeLexeme (c : Char) : Lexeme := if c = '\n' then .lineEnd else .code c

/-- A character of code is read on its own. -/
theorem lexemesFrom_isCode {c : Char} (hc : isCode c = true) (cs : List Char) :
    lexemesFrom .code (c :: cs) = codeLexeme c :: lexemesFrom .code cs := by
  simp only [isCode, Bool.and_eq_true, bne_iff_ne, ne_eq] at hc
  obtain ⟨⟨⟨hslash, hdouble⟩, hsingle⟩, htick⟩ := hc
  by_cases hn : c = '\n'
  · subst hn
    rw [lexemesFrom]
    rfl
  · have hplain : PlainCode c cs := ⟨hsingle, hdouble, htick, fun e => absurd e hslash⟩
    rw [lexemesFrom_code_cons hplain hn, codeLexeme, if_neg hn]

/-- Code is read character by character. -/
theorem readAs_code {t : String} (h : CodeText t) : ReadAs t (t.toList.map codeLexeme) := by
  intro rest
  rw [CodeText] at h
  generalize t.toList = cs at h ⊢
  induction cs with
  | nil => rfl
  | cons c cs ih =>
    rw [List.cons_append, lexemesFrom_isCode (h c List.mem_cons_self),
      ih fun c hc => h c (List.mem_cons_of_mem _ hc)]
    rfl

/-- What is spelled between double quotes holds no quote and no end of a line but escaped ones. -/
theorem Spells.body {b s : List Char} (h : Spells b s) : Body '"' b ∧ '\n' ∉ b := by
  induction h with
  | nil => exact ⟨.nil, List.not_mem_nil⟩
  | plain hq hb hn _ _ ih => exact ⟨.plain hb hq ih.1, by simp [ih.2, Ne.symm hn]⟩
  | @escape e c t s he _ ih =>
    have hn : e ≠ '\n' := by
      rintro rfl
      cases he
    exact ⟨.pair e ih.1, by simp [ih.2, Ne.symm hn]⟩
  | unicode ha hb hc hd _ _ ih =>
    -- a digit in base sixteen is neither a quote nor a backslash nor the end of a line
    have hdigit : ∀ {x i b}, hexValue x = some i → Body '"' b ∧ '\n' ∉ b →
        Body '"' (x :: b) ∧ '\n' ∉ x :: b := by
      intro x i b hx hbody
      obtain ⟨hq, hback, hend⟩ := plain_of_hexValue hx
      have hn : x ≠ '\n' := by
        rintro rfl
        cases hend
      exact ⟨.plain hback hq hbody.1, by simp [hbody.2, Ne.symm hn]⟩
    obtain ⟨hbody, hn⟩ := hdigit ha (hdigit hb (hdigit hc (hdigit hd ih)))
    exact ⟨.pair 'u' hbody, by simpa using hn⟩

/-- A literal is one lexeme. -/
theorem readAs_literal {b : List Char} (hb : Body '"' b) (hn : '\n' ∉ b) {t : String}
    (ht : t.toList = '"' :: b ++ ['"']) : ReadAs t [.literal false b] := by
  intro rest
  rw [ht, List.append_assoc, List.cons_append]
  exact @lexemesFrom_literal false b hb hn rest

/-- What a character of a comment is read as. -/
def commentLexeme (c : Char) : Lexeme := if c = '\n' then .lineEnd else .comment c

/-- What stands in a comment is read up to its end. -/
theorem lexemesFrom_block_body {b : List Char} (h : CommentBody b) (rest : List Char) :
    lexemesFrom .block (b ++ '*' :: '/' :: rest) =
      b.map commentLexeme ++ .comment '*' :: .comment '/' :: lexemesFrom .code rest := by
  induction b with
  | nil => simp [lexemesFrom]
  | cons c b ih =>
    have hb : CommentBody b := fun hin => h (List.infix_cons_iff.mpr (.inr hin))
    rw [List.cons_append, List.map_cons, List.cons_append, ← ih hb]
    by_cases hn : c = '\n'
    · subst hn
      rw [lexemesFrom]
      rfl
    · rw [lexemesFrom_block_cons _ hn, commentLexeme, if_neg hn]
      -- a slash behind a star would be the end of the comment
      rintro rfl hhead
      cases b with
      | nil => cases hhead
      | cons d b =>
        cases Option.some.inj hhead
        exact h ⟨[], b, rfl⟩

/-- A comment is read as its characters. -/
theorem readAs_comment {b : String} (h : CommentBody b.toList) :
    ReadAs ("/*" ++ b ++ "*/") (.comment '/' :: .comment '*' :: b.toList.map commentLexeme ++
      [.comment '*', .comment '/']) := by
  intro rest
  simp only [String.toList_append, List.append_assoc]
  show lexemesFrom .code ('/' :: '*' :: (b.toList ++ '*' :: '/' :: rest)) = _
  rw [lexemesFrom, lexemesFrom_block_body h]
  simp

/-! ## Brackets -/

/-- Brackets that are open around a piece of a script do not matter to it. -/
theorem turn_append {p q : List Bracket} {x : Lexeme} (h : turn p x = some q)
    (more : List Bracket) : turn (p ++ more) x = some (q ++ more) := by
  -- only a closing bracket looks at what is open, and it looks at the innermost one
  cases x with
  | code c =>
    simp only [turn] at h ⊢
    cases hc : codeToken c with
    | closing b =>
      rw [hc] at h
      cases p with
      | nil => cases h
      | cons o p =>
        simp only [List.cons_append] at h ⊢
        split at h
        next ho =>
          obtain rfl := Option.some.inj h
          rw [if_pos ho]
        next => cases h
    | _ =>
      rw [hc] at h
      obtain rfl := Option.some.inj h
      rfl
  | _ =>
    obtain rfl := Option.some.inj h
    rfl

/-- The same for many lexemes. -/
theorem foldlM_turn_append {ls : List Lexeme} {p q : List Bracket}
    (h : ls.foldlM turn p = some q) (more : List Bracket) :
    ls.foldlM turn (p ++ more) = some (q ++ more) := by
  induction ls generalizing p with
  | nil =>
    obtain rfl := Option.some.inj h
    rfl
  | cons x ls ih =>
    rw [List.foldlM_cons] at h ⊢
    obtain ⟨r, hx, hr⟩ := Option.bind_eq_some_iff.mp h
    rw [turn_append hx more]
    exact ih hr

/-! ## Pieces -/

/-- Whether a lexeme may stand inside of a statement. -/
def Lexeme.isInner (x : Lexeme) : Bool := x.isPlain && x != .code ';'

/-- Whether a character is code that neither is a bracket nor ends a statement. -/
def isNeutral (c : Char) : Bool := isCode c && c != ';' && codeToken c == .char c

/-- What such a character is not. -/
theorem isNeutral_iff {c : Char} :
    isNeutral c = true ↔ isCode c = true ∧ c ≠ ';' ∧ codeToken c = .char c := by
  simp [isNeutral, and_assoc]

/-- The lexeme of such a character may stand inside of a statement. -/
theorem isInner_codeLexeme {c : Char} (h : isNeutral c = true) :
    (codeLexeme c).isInner = true := by
  have hend : c ≠ ';' := (isNeutral_iff.mp h).2.1
  rw [codeLexeme]
  split
  · rfl
  · simp [Lexeme.isInner, Lexeme.isPlain, hend]

/-- The lexeme of such a character changes no brackets. -/
theorem turn_codeLexeme {c : Char} (h : isNeutral c = true) (p : List Bracket) :
    turn p (codeLexeme c) = some p := by
  have hchar : codeToken c = .char c := (isNeutral_iff.mp h).2.2
  rw [codeLexeme]
  split
  · rfl
  · simp [turn, hchar]

/-- Characters of words are neither brackets nor ends of statements. -/
theorem isNeutral_of_isWord {c : Char} (h : isWord c = true) : isNeutral c = true := by
  have hopening : Bracket.ofOpening? c = none := by
    simp [Bracket.ofOpening?, ne_of_isWord h (d := '(') (by decide),
      ne_of_isWord h (d := '[') (by decide), ne_of_isWord h (d := '{') (by decide)]
  have hclosing : Bracket.ofClosing? c = none := by
    simp [Bracket.ofClosing?, ne_of_isWord h (d := ')') (by decide),
      ne_of_isWord h (d := ']') (by decide), ne_of_isWord h (d := '}') (by decide)]
  have hchar : codeToken c = .char c := by rw [codeToken, hopening, hclosing]
  exact isNeutral_iff.mpr ⟨isCode_of_isWord h, ne_of_isWord h (by decide), hchar⟩

/-- A text that starts and ends in code and whose lexemes are all of a kind.  The first brackets
are open before it and the second ones after it. -/
def Piece (kind : Lexeme → Bool) (p q : List Bracket) (t : String) : Prop :=
  ∃ ls, ReadAs t ls ∧ (∀ x ∈ ls, kind x = true) ∧ ls.foldlM turn p = some q

namespace Piece

variable {kind : Lexeme → Bool} {p q r : List Bracket} {t u : String}

/-- Pieces in a row. -/
theorem append (h : Piece kind p q t) (h' : Piece kind q r u) : Piece kind p r (t ++ u) := by
  obtain ⟨ls, hread, hkind, hturn⟩ := h
  obtain ⟨ms, hread', hkind', hturn'⟩ := h'
  refine ⟨ls ++ ms, hread.append hread', ?_, ?_⟩
  · intro x hx
    obtain hx | hx := List.mem_append.mp hx
    · exact hkind x hx
    · exact hkind' x hx
  · rw [List.foldlM_append, hturn]
    exact hturn'

/-- Pieces in a row that change no brackets. -/
theorem beside (h : Piece kind [] [] t) (h' : Piece kind [] [] u) : Piece kind [] [] (t ++ u) :=
  h.append h'

/-- A piece inside of more brackets. -/
theorem beneath (h : Piece kind p q t) (more : List Bracket) :
    Piece kind (p ++ more) (q ++ more) t := by
  obtain ⟨ls, hread, hkind, hturn⟩ := h
  exact ⟨ls, hread, hkind, foldlM_turn_append hturn more⟩

/-- A piece that changes no brackets, inside of some. -/
theorem inside (h : Piece kind [] [] t) (p : List Bracket) : Piece kind p p t := h.beneath p

/-- A piece between opening brackets and closing ones. -/
theorem wrap {start stop : String} (hstart : Piece kind [] p start) (h : Piece kind [] [] t)
    (hstop : Piece kind p [] stop) : Piece kind [] [] (start ++ t ++ stop) :=
  (hstart.append (h.inside p)).append hstop

/-- A piece whose lexemes are of another kind, too. -/
theorem mono {kind' : Lexeme → Bool} (hkind : ∀ x, kind x = true → kind' x = true)
    (h : Piece kind p q t) : Piece kind' p q t := by
  obtain ⟨ls, hread, hall, hturn⟩ := h
  exact ⟨ls, hread, fun x hx => hkind x (hall x hx), hturn⟩

/-- What stands inside of a statement may stand anywhere. -/
theorem plain (h : Piece Lexeme.isInner p q t) : Piece Lexeme.isPlain p q t :=
  h.mono fun _ hx => (Bool.and_eq_true_iff.mp hx).1

/-- Code is a piece.  A text that is given is known by its characters. -/
theorem code {cs : List Char} (h : cs.all isCode = true ∧
    (cs.map codeLexeme).all kind = true ∧ (cs.map codeLexeme).foldlM turn p = some q) :
    Piece kind p q (String.ofList cs) := by
  obtain ⟨hcode, hkind, hturn⟩ := h
  refine ⟨_, readAs_code (codeText_ofList (List.all_eq_true.mp hcode)), ?_⟩
  rw [String.toList_ofList]
  exact ⟨List.all_eq_true.mp hkind, hturn⟩

/-- Nothing is a piece. -/
theorem empty : Piece kind p p "" := ⟨[], fun _ => rfl, by simp, rfl⟩

/-- Pieces in a row, each of which changes no brackets. -/
theorem foldr {ts : List String} (h : ∀ t ∈ ts, Piece kind [] [] t) :
    Piece kind [] [] (ts.foldr (· ++ ·) "") :=
  foldr_induction empty beside h

/-- Pieces with another one between any two of them. -/
theorem intercalate {sep : String} (hsep : Piece kind [] [] sep) {ts : List String}
    (h : ∀ t ∈ ts, Piece kind [] [] t) : Piece kind [] [] (sep.intercalate ts) :=
  intercalate_induction empty beside hsep h

/-! ### The smallest pieces -/

/-- Code without brackets that ends no statement is a piece. -/
theorem neutral (h : t.toList.all isNeutral = true) : Piece Lexeme.isInner p p t := by
  replace h : ∀ c ∈ t.toList, isNeutral c = true := List.all_eq_true.mp h
  have hcode : CodeText t := fun c hc => (isNeutral_iff.mp (h c hc)).1
  refine ⟨_, readAs_code hcode, ?_, ?_⟩
  · intro x hx
    obtain ⟨c, hc, rfl⟩ := List.mem_map.mp hx
    exact isInner_codeLexeme (h c hc)
  · generalize t.toList = cs at h ⊢
    induction cs with
    | nil => rfl
    | cons c cs ih =>
      rw [List.map_cons, List.foldlM_cons, turn_codeLexeme (h c List.mem_cons_self)]
      exact ih fun d hd => h d (List.mem_cons_of_mem _ hd)

/-- Spaces are a piece. -/
theorem spaces (n : Nat) : Piece Lexeme.isInner p p (String.ofList (List.replicate n ' ')) := by
  refine neutral (List.all_eq_true.mpr fun c hc => ?_)
  rw [String.toList_ofList] at hc
  rw [List.eq_of_mem_replicate hc]
  decide

/-- A word is a piece. -/
theorem word (h : WordText t) : Piece Lexeme.isInner p p t :=
  neutral (List.all_eq_true.mpr fun c hc => isNeutral_of_isWord (h c hc))

/-- A literal is a piece. -/
theorem literal {s : String} (h : Literal t s) : Piece Lexeme.isInner p p t := by
  obtain ⟨b, ht, hs⟩ := h
  exact ⟨_, readAs_literal hs.body.1 hs.body.2 ht, by simp [Lexeme.isInner, Lexeme.isPlain], rfl⟩

/-- A script literal is a piece. -/
theorem quote (s : String) : Piece Lexeme.isInner p p (quote s) := literal (literal_quote s)

/-- A JSON string is a piece. -/
theorem quoted (s : String) : Piece Lexeme.isInner p p (Json.quoted s) :=
  literal (literal_quoted s)

/-- A comment is a piece, whatever it says. -/
theorem comment {b : String} (h : CommentBody b.toList) :
    Piece Lexeme.isInner p p ("/*" ++ b ++ "*/") := by
  have hmap : ∀ stack c, turn stack (commentLexeme c) = some stack := by
    intro stack c
    rw [commentLexeme]
    split <;> rfl
  refine ⟨_, readAs_comment h, ?_, ?_⟩
  · intro x hx
    simp only [List.cons_append, List.mem_cons, List.mem_append, List.mem_map,
      List.not_mem_nil, or_false] at hx
    -- the two marks are plain lexemes, and so are the characters between them
    obtain rfl | rfl | ⟨c, -, rfl⟩ | rfl | rfl := hx
    · rfl
    · rfl
    · rw [commentLexeme]
      split <;> rfl
    · rfl
    · rfl
  · show (b.toList.map commentLexeme ++ _).foldlM turn p = some p
    rw [List.foldlM_append, foldlM_turn_map hmap]
    rfl

/-! ### Scripts -/

/-- Lines are a piece if they end in code. -/
theorem lines {ls : List (List Char)} (hn : ∀ l ∈ ls, '\n' ∉ l)
    (h : (linesLexemes .code ls).2 = .code ∧ (∀ x ∈ (linesLexemes .code ls).1, kind x = true) ∧
      (linesLexemes .code ls).1.foldlM turn p = some q) :
    Piece kind p q (String.ofList (unlines ls)) := by
  refine ⟨_, fun rest => ?_, h.2⟩
  have hread := lexemesFrom_unlines hn .code rest
  rwa [h.1, ← String.toList_ofList (l := unlines ls)] at hread

/-- A script that is a piece and leaves no bracket open is accepted. -/
theorem exists_format_eq_ok (h : Piece Lexeme.isPlain [] [] t) (width : Nat) :
    ∃ target, format width t = .ok target := by
  obtain ⟨ls, hread, hplain, hturn⟩ := h
  obtain rfl := hread.lexemes_eq
  exact Script.exists_format_eq_ok hplain hturn width

end Piece

end Promptwright.Script
