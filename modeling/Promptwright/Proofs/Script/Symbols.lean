import Promptwright.Proofs.Script.Pieces

/-!
# What code is made of

The code of a script is made of keywords, names, single characters and string literals; white space
and comments only tell these apart.  A name goes on as long as its characters do, so where a text
ends the last name may not be complete yet: texts are read from a name that is pending to another
one.  Names are those of generated scripts, which are written in ASCII.

A text is `Quiet` if its code holds no keyword, whatever stands around it.

## Key results

- `symbolRun_append`: texts in a row are read one by one
- `Yields.append`, `Yields.code`, `Yields.name`, `Yields.quote`: what texts are read as
- `Quiet.append`, `Quiet.code`, `Quiet.numeral`, `Quiet.literal`: texts without keywords
-/

namespace Promptwright.Script

/-! ## Symbols -/

/-- The words by which scripts declare, export and import names, and two keys of interest. -/
inductive Keyword
  | const
  /-- The other words that declare a name for a value. -/
  | declare
  | type
  | exporting
  | exports
  | module
  | importing
  | require
  | source
  | parameters
  | schema
deriving DecidableEq, Repr

/-- How keywords are spelled. -/
def Keyword.spellings : List (List Char × Keyword) := [
  (['c', 'o', 'n', 's', 't'], .const),
  (['l', 'e', 't'], .declare),
  (['v', 'a', 'r'], .declare),
  (['f', 'u', 'n', 'c', 't', 'i', 'o', 'n'], .declare),
  (['c', 'l', 'a', 's', 's'], .declare),
  (['t', 'y', 'p', 'e'], .type),
  (['e', 'x', 'p', 'o', 'r', 't'], .exporting),
  (['e', 'x', 'p', 'o', 'r', 't', 's'], .exports),
  (['m', 'o', 'd', 'u', 'l', 'e'], .module),
  (['i', 'm', 'p', 'o', 'r', 't'], .importing),
  (['r', 'e', 'q', 'u', 'i', 'r', 'e'], .require),
  (['f', 'r', 'o', 'm'], .source),
  (['p', 'a', 'r', 'a', 'm', 'e', 't', 'e', 'r', 's'], .parameters),
  (['s', 'c', 'h', 'e', 'm', 'a'], .schema)]

/-- The keyword that some characters spell. -/
def Keyword.ofChars? (cs : List Char) : Option Keyword := Keyword.spellings.lookup cs

/-- A part of code. -/
inductive Symbol
  | keyword (k : Keyword)
  /-- A name that is no keyword, or a number. -/
  | name (cs : List Char)
  | mark (c : Char)
  /-- A string literal, by what stands between its quotes. -/
  | text (body : List Char)
deriving DecidableEq, Repr

/-- Whether a character may stand in a name. -/
def isNamePart (c : Char) : Bool := c.isAlphanum || c == '_' || c == '$'

/-- What the characters of a name are read as. -/
def nameSymbol (cs : List Char) : Symbol :=
  match Keyword.ofChars? cs with
  | some k => .keyword k
  | none => .name cs

/-- Ends a name in front of some symbols. -/
def endName (w : List Char) (ss : List Symbol) : List Symbol :=
  if w = [] then ss else nameSymbol w :: ss

/-- The symbols that are complete at the end of some lexemes, and the name that is not, given the
start of a name in front of them. -/
def symbolRun (w : List Char) : List Lexeme → List Symbol × List Char
  | [] => ([], w)
  | .code c :: ls =>
    if isNamePart c then symbolRun (w ++ [c]) ls
    else
      let (ss, w') := symbolRun [] ls
      (endName w (if Text.isBlank c then ss else .mark c :: ss), w')
  | .literal _ body :: ls =>
    let (ss, w') := symbolRun [] ls
    (endName w (.text body :: ss), w')
  | _ :: ls =>
    let (ss, w') := symbolRun [] ls
    (endName w ss, w')

/-- The symbols of a script. -/
def symbols (script : String) : List Symbol :=
  let (ss, w) := symbolRun [] (lexemes script)
  ss ++ endName w []

example : symbols "const a1=\"b\" /* c */;" =
    [.keyword .const, .name ['a', '1'], .mark '=', .text ['b'], .mark ';'] := by decide

/-- A name that ends in front of symbols in a row ends in front of the first ones. -/
theorem endName_append (w : List Char) (ss ts : List Symbol) :
    endName w (ss ++ ts) = endName w ss ++ ts := by
  rw [endName, endName]
  split <;> rfl

/-- Lexemes in a row are read one after the other. -/
theorem symbolRun_append (w : List Char) (ls ms : List Lexeme) :
    symbolRun w (ls ++ ms) = ((symbolRun w ls).1 ++ (symbolRun (symbolRun w ls).2 ms).1,
      (symbolRun (symbolRun w ls).2 ms).2) := by
  induction ls generalizing w with
  | nil => rfl
  | cons x ls ih =>
    rw [List.cons_append]
    cases x with
    | code c =>
      simp only [symbolRun]
      -- a character of a name is kept for later, any other one ends the name that is kept
      by_cases hc : isNamePart c = true
      · rw [if_pos hc, if_pos hc, ih]
      · rw [if_neg hc, if_neg hc, ih]
        by_cases hb : Text.isBlank c = true <;> simp [hb, ← endName_append]
    | _ => simp [symbolRun, ih, ← endName_append]

/-- A name ends in front of a character of another kind. -/
theorem symbolRun_cons {c : Char} (h : isNamePart c = false) (w : List Char) (ls : List Lexeme) :
    symbolRun w (codeLexeme c :: ls) =
      (endName w (symbolRun [] (codeLexeme c :: ls)).1, (symbolRun [] (codeLexeme c :: ls)).2) := by
  rw [codeLexeme]
  split
  · rfl
  · simp [symbolRun, h, endName]

/-! ## What texts are read as -/

/-- A text whose symbols are known, and the name at its end, given a name in front of it. -/
def Yields (w : List Char) (t : String) (ss : List Symbol) (w' : List Char) : Prop :=
  ∃ ls, ReadAs t ls ∧ symbolRun w ls = (ss, w')

namespace Yields

variable {w w' w'' : List Char} {t u : String} {ss ts : List Symbol}

/-- Texts in a row. -/
theorem append (h : Yields w t ss w') (h' : Yields w' u ts w'') :
    Yields w (t ++ u) (ss ++ ts) w'' := by
  obtain ⟨ls, hread, hrun⟩ := h
  obtain ⟨ms, hread', hrun'⟩ := h'
  refine ⟨ls ++ ms, hread.append hread', ?_⟩
  rw [symbolRun_append, hrun, hrun']

/-- Code is read character by character.  A text that is given is known by its characters. -/
theorem code {cs : List Char} (h : cs.all isCode = true)
    (hrun : symbolRun w (cs.map codeLexeme) = (ss, w')) : Yields w (String.ofList cs) ss w' := by
  refine ⟨_, readAs_code (codeText_ofList (List.all_eq_true.mp h)), ?_⟩
  rwa [String.toList_ofList]

/-- A name ends in front of code that starts with a character of another kind. -/
theorem behind {c : Char} {cs : List Char} (hc : isNamePart c = false)
    (hcode : (c :: cs).all isCode = true)
    (hrun : symbolRun [] ((c :: cs).map codeLexeme) = (ss, w')) :
    Yields w (String.ofList (c :: cs)) (endName w ss) w' := by
  rw [List.map_cons] at hrun
  apply code hcode
  rw [List.map_cons, symbolRun_cons hc, hrun]

/-- The symbols of a script are those of its text. -/
theorem symbols_eq (h : Yields [] t ss []) : symbols t = ss := by
  obtain ⟨ls, hread, hrun⟩ := h
  rw [symbols, hread.lexemes_eq, hrun]
  exact List.append_nil ss

/-- A script literal. -/
theorem quote (s : String) : Yields [] (quote s) [.text (s.toList.flatMap escapeChar)] [] := by
  have hs := spells_flatMap_escapeChar s.toList
  have ht : (Script.quote s).toList = '"' :: s.toList.flatMap escapeChar ++ ['"'] := by
    rw [Script.quote, quoteChars, String.toList_ofList]
  exact ⟨_, readAs_literal hs.body.1 hs.body.2 ht, rfl⟩

end Yields

/-- A text that consists of characters of names. -/
def NameText (t : String) : Prop := ∀ c ∈ t.toList, isNamePart c = true

/-- A character of a name is code, and not white space. -/
theorem isCode_of_isNamePart {c : Char} (h : isNamePart c = true) :
    isCode c = true ∧ c ≠ '\n' := by
  have hne : ∀ d, isNamePart d = false → c ≠ d := by
    rintro d hd rfl
    rw [h] at hd
    contradiction
  simp only [isCode, Bool.and_eq_true, bne_iff_ne]
  exact ⟨⟨⟨⟨hne _ (by decide), hne _ (by decide)⟩, hne _ (by decide)⟩, hne _ (by decide)⟩,
    hne _ (by decide)⟩

/-- Characters of a name go on with the name in front of them. -/
theorem symbolRun_name {cs : List Char} (h : ∀ c ∈ cs, isNamePart c = true) (w : List Char) :
    symbolRun w (cs.map codeLexeme) = ([], w ++ cs) := by
  induction cs generalizing w with
  | nil => simp [symbolRun]
  | cons c cs ih =>
    have hc : isNamePart c = true := h c List.mem_cons_self
    rw [List.map_cons, codeLexeme, if_neg (isCode_of_isNamePart hc).2, symbolRun, if_pos hc,
      ih fun d hd => h d (List.mem_cons_of_mem _ hd)]
    simp

/-- A name. -/
theorem Yields.name {t : String} (h : NameText t) (w : List Char) :
    Yields w t [] (w ++ t.toList) := by
  have hcode : CodeText t := fun c hc => (isCode_of_isNamePart (h c hc)).1
  exact ⟨_, readAs_code hcode, symbolRun_name h w⟩

/-! ## Texts without keywords -/

/-- Whether a symbol is no keyword. -/
def Symbol.isQuiet : Symbol → Bool
  | .keyword _ => false
  | _ => true

/-- A name that may be pending: none at all, if `named` is false, and no keyword in any case. -/
def Pending (named : Bool) (w : List Char) : Prop :=
  (named = false → w = []) ∧ Keyword.ofChars? w = none

/-- No name at all. -/
theorem pending_nil (named : Bool) : Pending named [] := ⟨fun _ => rfl, by decide⟩

/-- A name that is no keyword is one symbol. -/
theorem isQuiet_of_mem_endName {named : Bool} {w : List Char} (hw : Pending named w)
    {ss : List Symbol} (hss : ∀ s ∈ ss, s.isQuiet = true) :
    ∀ s ∈ endName w ss, s.isQuiet = true := by
  intro s hs
  rw [endName] at hs
  split at hs
  · exact hss s hs
  · obtain rfl | hs := List.mem_cons.mp hs
    · rw [nameSymbol, hw.2]
      rfl
    · exact hss s hs

/-- A text whose code holds no keyword.  `p` says whether a name may be pending in front of it,
and `q` whether one may be at its end. -/
def Quiet (p q : Bool) (t : String) : Prop :=
  ∃ ls, ReadAs t ls ∧ ∀ w, Pending p w →
    (∀ s ∈ (symbolRun w ls).1, s.isQuiet = true) ∧ Pending q (symbolRun w ls).2

namespace Quiet

variable {p q r : Bool} {t u : String}

/-- Texts in a row. -/
theorem append (h : Quiet p q t) (h' : Quiet q r u) : Quiet p r (t ++ u) := by
  obtain ⟨ls, hread, hquiet⟩ := h
  obtain ⟨ms, hread', hquiet'⟩ := h'
  refine ⟨ls ++ ms, hread.append hread', fun w hw => ?_⟩
  obtain ⟨hls, hpending⟩ := hquiet w hw
  obtain ⟨hms, hpending'⟩ := hquiet' _ hpending
  rw [symbolRun_append]
  refine ⟨fun s hs => ?_, hpending'⟩
  obtain hs | hs := List.mem_append.mp hs
  · exact hls s hs
  · exact hms s hs

/-- Nothing. -/
theorem empty : Quiet p p "" := ⟨[], fun _ => rfl, fun _ hw => ⟨nofun, hw⟩⟩

/-- A text that ends no name may also be said to end one. -/
theorem mayEnd (h : Quiet p false t) : Quiet p q t := by
  obtain ⟨ls, hread, hquiet⟩ := h
  refine ⟨ls, hread, fun w hw => ?_⟩
  obtain ⟨hls, hpending⟩ := hquiet w hw
  rw [hpending.1 rfl]
  exact ⟨hls, pending_nil q⟩

/-- Without keywords at the start of a script, there are none. -/
theorem exists_yields (h : Quiet false false t) :
    ∃ ss, Yields [] t ss [] ∧ ∀ s ∈ ss, s.isQuiet = true := by
  obtain ⟨ls, hread, hquiet⟩ := h
  obtain ⟨hls, hpending⟩ := hquiet [] (pending_nil false)
  have hend : (symbolRun [] ls).2 = [] := hpending.1 rfl
  exact ⟨(symbolRun [] ls).1, ⟨ls, hread, Prod.ext rfl hend⟩, hls⟩

/-- Whether the code of some characters can be seen to hold no keyword. -/
def holds (p q : Bool) (cs : List Char) : Bool :=
  let r := symbolRun [] (cs.map codeLexeme)
  cs.all isCode && (!p || cs.head?.all fun c => !isNamePart c) && r.1.all Symbol.isQuiet &&
    (q || r.2.isEmpty) && (Keyword.ofChars? r.2).isNone && !cs.isEmpty

/-- Code that is given. -/
theorem code {cs : List Char} (h : holds p q cs = true) : Quiet p q (String.ofList cs) := by
  simp only [holds, Bool.and_eq_true, Bool.or_eq_true, Bool.not_eq_true'] at h
  obtain ⟨⟨⟨⟨⟨hcode, hstart⟩, hquiet⟩, hend⟩, hkeyword⟩, hne⟩ := h
  have hread := readAs_code (codeText_ofList (List.all_eq_true.mp hcode))
  rw [String.toList_ofList] at hread
  have hpending : Pending q (symbolRun [] (cs.map codeLexeme)).2 := by
    refine ⟨fun hq => ?_, Option.isNone_iff_eq_none.mp hkeyword⟩
    rw [hq] at hend
    simpa using hend
  refine ⟨_, hread, fun w hw => ?_⟩
  cases cs with
  | nil => cases hne
  | cons c cs =>
    obtain hp | hc := hstart
    · obtain rfl := hw.1 hp
      exact ⟨List.all_eq_true.mp hquiet, hpending⟩
    · -- the text starts with the end of the name in front of it
      have hc : isNamePart c = false := by simpa using hc
      rw [List.map_cons] at hquiet hpending ⊢
      rw [symbolRun_cons hc]
      exact ⟨isQuiet_of_mem_endName hw (List.all_eq_true.mp hquiet), hpending⟩

/-- A literal. -/
theorem literal {s : String} (h : Literal t s) : Quiet p false t := by
  obtain ⟨body, ht, hs⟩ := h
  refine ⟨_, readAs_literal hs.body.1 hs.body.2 ht, fun w hw => ?_⟩
  exact ⟨isQuiet_of_mem_endName hw (by simp [Symbol.isQuiet]), pending_nil false⟩

/-- A script literal. -/
theorem quote (s : String) : Quiet p false (quote s) := literal (literal_quote s)

/-- A JSON string. -/
theorem quoted (s : String) : Quiet p false (Json.quoted s) := literal (literal_quoted s)

/-- A comment, whatever it says. -/
theorem comment {b : String} (h : CommentBody b.toList) : Quiet p false ("/*" ++ b ++ "*/") := by
  -- inside the comment no name is pending, so its characters leave no trace
  have hskip : ∀ (cs : List Char) (ls : List Lexeme),
      symbolRun [] (cs.map commentLexeme ++ ls) = symbolRun [] ls := by
    intro cs ls
    induction cs with
    | nil => rfl
    | cons c cs ih =>
      rw [List.map_cons, List.cons_append, ← ih, commentLexeme]
      split <;> simp [symbolRun, endName]
  refine ⟨_, readAs_comment h, fun w hw => ?_⟩
  have hrun : symbolRun w (.comment '/' :: .comment '*' :: b.toList.map commentLexeme ++
      [.comment '*', .comment '/']) = (endName w [], []) := by
    simp only [List.cons_append, symbolRun, hskip]
    simp [endName]
  rw [hrun]
  exact ⟨isQuiet_of_mem_endName hw (by simp), pending_nil false⟩

/-- Every keyword has a letter that stands in no number. -/
theorem ofChars?_of_isNumeral {cs : List Char} (h : ∀ c ∈ cs, isNumeral c = true) :
    Keyword.ofChars? cs = none := by
  have hall : ∀ e ∈ Keyword.spellings, ¬ e.1.all isNumeral = true := by decide
  rw [Keyword.ofChars?, List.lookup_eq_none_iff]
  intro e he
  have hne : cs ≠ e.1 := by
    rintro rfl
    exact hall e he (List.all_eq_true.mpr h)
  simpa using hne

/-- Characters of numbers are read without keywords.  The name that is pending on the way is made of
such characters, too. -/
theorem symbolRun_numeral {cs : List Char} (hcs : ∀ c ∈ cs, isNumeral c = true) {w : List Char}
    (hw : ∀ c ∈ w, isNumeral c = true) :
    (∀ s ∈ (symbolRun w (cs.map codeLexeme)).1, s.isQuiet = true) ∧
      Pending true (symbolRun w (cs.map codeLexeme)).2 := by
  have hnumeral : Pending true w := ⟨nofun, ofChars?_of_isNumeral hw⟩
  induction cs generalizing w with
  | nil => exact ⟨nofun, hnumeral⟩
  | cons c cs ih =>
    have hc : isNumeral c = true := hcs c List.mem_cons_self
    have hrest : ∀ d ∈ cs, isNumeral d = true := fun d hd => hcs d (List.mem_cons_of_mem _ hd)
    rw [List.map_cons]
    by_cases hname : isNamePart c = true
    · rw [codeLexeme, if_neg (isCode_of_isNamePart hname).2, symbolRun, if_pos hname]
      have hwc : ∀ d ∈ w ++ [c], isNumeral d = true := by
        intro d hd
        obtain hd | hd := List.mem_append.mp hd
        · exact hw d hd
        · rwa [List.mem_singleton.mp hd]
      exact ih hrest hwc ⟨nofun, ofChars?_of_isNumeral hwc⟩
    -- a point or a sign ends the digits in front of it and is a mark
    · have hcode : codeLexeme c = .code c := by
        rw [codeLexeme, if_neg]
        rintro rfl
        exact absurd hc (by decide)
      obtain ⟨hquiet, hpending⟩ := ih hrest (w := []) (by simp) (pending_nil true)
      rw [hcode, symbolRun, if_neg hname]
      refine ⟨isQuiet_of_mem_endName hnumeral fun s hs => ?_, hpending⟩
      split at hs
      · exact hquiet s hs
      · obtain rfl | hs := List.mem_cons.mp hs
        · rfl
        · exact hquiet s hs

/-- A number that is written with digits. -/
theorem numeral (h : NumeralText t) : Quiet false true t := by
  refine ⟨_, readAs_code h.wordText.codeText, fun w hw => ?_⟩
  obtain rfl := hw.1 rfl
  exact symbolRun_numeral (w := []) h (by simp)

/-- The number of a JSON text. -/
theorem number (n : Json.Number) : Quiet false true n.text := by
  obtain h | h := number_cases n
  · rw [h]
    exact code (by decide)
  · exact numeral h

/-- Texts in a row, each of which is complete. -/
theorem foldr {ts : List String} (h : ∀ t ∈ ts, Quiet false false t) :
    Quiet false false (ts.foldr (· ++ ·) "") :=
  foldr_induction empty append h

/-- Texts with another one between any two of them. -/
theorem intercalate {sep : String} (hsep : Quiet false false sep) {ts : List String}
    (h : ∀ t ∈ ts, Quiet false false t) : Quiet false false (sep.intercalate ts) :=
  intercalate_induction empty append hsep h

end Quiet

end Promptwright.Script
