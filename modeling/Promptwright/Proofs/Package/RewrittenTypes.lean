import Promptwright.Proofs.Package.LibraryImports
import Promptwright.Proofs.Package.References
import Promptwright.Proofs.Package.TemplateWalk

/-!
# Shared types import the library from elsewhere

Shared types import the validator library from where the dialect says, and nothing else in them is
changed.  An import of the library by its name can be left only if the path is written so that it
ends in `from`: then the quote behind it can start the name.

## Key results

- `isFree_clause`: an import from another path brings none by the name along
- `not_endsInFrom_quotedBody`: for which paths this is so
- `sharedTypes_rewritten`: the shared types of a dialect
-/

namespace Promptwright

namespace LibraryImport

open Script (escapeChar)

variable {cs m rest : List Char} {c : Char}

/-! ## The replacement -/

/-- Characters that end in `from` and white space, so that a quote behind them may start the name of
the library. -/
def EndsInFrom (cs : List Char) : Prop :=
  ∃ before blanks, (∀ c ∈ blanks, Text.isBlank c = true) ∧
    cs = before ++ ['f', 'r', 'o', 'm'] ++ blanks

/-- Texts without quotes end at the first quote. -/
theorem eq_of_append_quote {as bs : List Char} {q r : Char} (h : as ++ q :: cs = bs ++ r :: rest)
    (has : ∀ c ∈ as, isQuote c = false) (hbs : ∀ c ∈ bs, isQuote c = false)
    (hq : isQuote q = true) (hr : isQuote r = true) : as = bs := by
  refine (Text.append_inj_of_span (p := fun c => !isQuote c) ?_ ?_ ?_ ?_ h).1
  · simpa using has
  · simpa using hbs
  · simpa using hq
  · simpa using hr

/-- There is no quote in front of the name of the library. -/
theorem isQuote_eq_false_of_mem {blanks : List Char} (hblanks : ∀ c ∈ blanks, Text.isBlank c = true) :
    ∀ c ∈ ['f', 'r', 'o', 'm'] ++ blanks, isQuote c = false := by
  intro c hc
  rw [Bool.eq_false_iff]
  intro hquote
  obtain hc | hc := List.mem_append.mp hc
  · have hfrom : ∀ c ∈ ['f', 'r', 'o', 'm'], isQuote c = false := by simp [isQuote]
    rw [hfrom c hc] at hquote
    cases hquote
  · have hblank := hblanks c hc
    rw [isBlank_eq_false_of_isQuote hquote] at hblank
    cases hblank

/-- Up to the quote behind it, a text without quotes brings no import along if it does not end in
`from`. -/
theorem isFree_append_quote {u : List Char} (hu : ∀ c ∈ u, isQuote c = false)
    (hend : ¬ EndsInFrom u) (hcs : isFree cs = true) : isFree (u ++ '"' :: cs) = true := by
  induction u with
  | nil => rwa [List.nil_append, isFree_cons (by decide)]
  | cons c u ih =>
    have hrest : ¬ EndsInFrom u := by
      rintro ⟨before, blanks, hblanks, rfl⟩
      exact hend ⟨c :: before, blanks, hblanks, rfl⟩
    rw [List.cons_append, isFree, ih (List.forall_mem_cons.mp hu).2 hrest, Bool.and_true,
      Option.isNone_iff_eq_none, length?_eq_none_iff]
    rintro m rest heq ⟨blanks, q, r, hblanks, hq, -, rfl⟩
    rw [← List.cons_append, List.append_assoc] at heq
    -- the quote of the import is the one behind the text
    exact hend ⟨[], blanks, hblanks,
      eq_of_append_quote heq hu (isQuote_eq_false_of_mem hblanks) rfl hq⟩

section Clause

variable {path : String}

/-- The characters of a clause. -/
theorem clause_eq (path : String) (cs : List Char) :
    clause path ++ cs = 'f' :: 'r' :: 'o' :: 'm' :: ' ' :: '"' :: (quotedBody path ++ '"' :: cs) := by
  simp [clause, Script.quoteChars, quotedBody]

/-- A path without quotes is written without any. -/
theorem isQuote_eq_false_of_mem_quotedBody (hquote : ∀ c ∈ path.toList, isQuote c = false) :
    ∀ c ∈ quotedBody path, isQuote c = false := by
  -- an escape is a backslash with a letter, a quote or four digits in base sixteen behind it
  have hdigit : ∀ d < 16, isQuote (Nat.digitChar d) = false := by decide
  have hhex : ∀ n, ∀ c ∈ Script.hex4 n, isQuote c = false := by
    intro n
    simp only [Script.hex4, List.forall_mem_cons, List.not_mem_nil, false_imp_iff, implies_true,
      and_true]
    exact ⟨hdigit _ (Nat.mod_lt _ (by decide)), hdigit _ (Nat.mod_lt _ (by decide)),
      hdigit _ (Nat.mod_lt _ (by decide)), hdigit _ (Nat.mod_lt _ (by decide))⟩
  have hpair : ∀ {x}, isQuote x = false → ∀ c ∈ ['\\', x], isQuote c = false := fun hx =>
    List.forall_mem_cons.mpr ⟨rfl, List.forall_mem_singleton.mpr hx⟩
  -- only a double quote is escaped with a quote, and there is none
  have hescaped : ∀ a, isQuote a = false → ∀ c ∈ Script.escapeChar a, isQuote c = false := by
    intro a ha
    rw [Script.escapeChar]
    split
    · exact hpair rfl
    split
    next heq => exact absurd (heq ▸ ha) (by decide)
    split
    · exact hpair rfl
    split
    · exact hpair rfl
    split
    · exact hpair rfl
    split
    · simpa [isQuote] using hhex a.toNat
    · simpa using ha
  intro c hc
  obtain ⟨a, ha, hc⟩ := List.mem_flatMap.mp hc
  exact hescaped a (hquote a ha) c hc

/-- Only the path that is the name of the library is written like it. -/
theorem eq_of_quotedBody_eq (h : quotedBody path = ['z', 'o', 'd']) : path = "zod" := by
  have hspells : Script.Spells (quotedBody path) "zod".toList := by
    rw [h]
    exact spells_quotedBody "zod"
  exact (eq_of_spells_quotedBody hspells).symm

/-- A clause with another path brings no import along, unless the path is written so that it ends in
`from`. -/
theorem isFree_clause (hzod : path ≠ "zod") (hquote : ∀ c ∈ path.toList, isQuote c = false)
    (hend : ¬ EndsInFrom (quotedBody path)) (hcs : isFree cs = true) :
    isFree (clause path ++ cs) = true := by
  have hbody := isQuote_eq_false_of_mem_quotedBody hquote
  rw [clause_eq, isFree, isFree_cons (by decide), isFree_cons (by decide), isFree_cons (by decide),
    isFree_cons (by decide), isFree_cons (by decide), isFree_append_quote hbody hend hcs,
    Bool.and_true, Option.isNone_iff_eq_none, length?_eq_none_iff]
  rintro m rest heq ⟨blanks, q, r, hblanks, hq, hr, rfl⟩
  simp only [List.cons_append, List.nil_append, List.append_assoc, List.cons.injEq, true_and] at heq
  -- the import is the clause itself, so the path is the name
  have hspan : [' '] ++ '"' :: (quotedBody path ++ '"' :: cs) =
      blanks ++ q :: 'z' :: 'o' :: 'd' :: r :: rest := heq
  obtain ⟨-, hname⟩ := Text.append_inj_of_span (p := Text.isBlank)
    (List.forall_mem_singleton.mpr rfl) hblanks (isBlank_head?_eq_false rfl _)
    (isBlank_head?_eq_false hq _) hspan
  refine hzod (eq_of_quotedBody_eq (eq_of_append_quote (List.cons.inj hname).2 hbody ?_ rfl hr))
  simp [isQuote]

/-! ## Paths that are written so that they end in `from` -/

/-- What the last character of an escape can be. -/
theorem escapeChar_eq_concat {d : Char} {w : List Char} (h : escapeChar c = w ++ [d]) :
    (w = [] ∧ c = d) ∨ (w = ['\\'] ∧ d ∈ ['\\', '"', 'n', 'r', 't']) ∨
      ((c.toNat = 0x2028 ∨ c.toNat = 0x2029 ∨ c.toNat < 0x20) ∧
        d = Nat.digitChar (c.toNat % 16)) := by
  have hpair : ∀ {x}, ['\\', x] = w ++ [d] → w = ['\\'] ∧ x = d := by
    intro x h
    obtain ⟨hw, hd⟩ := List.append_inj' (show ['\\'] ++ [x] = w ++ [d] from h) rfl
    exact ⟨hw.symm, List.head_eq_of_cons_eq hd⟩
  -- one case for each escape; the last one is a character that stands for itself
  rw [escapeChar] at h
  split at h
  · obtain ⟨rfl, rfl⟩ := hpair h; simp
  split at h
  · obtain ⟨rfl, rfl⟩ := hpair h; simp
  split at h
  · obtain ⟨rfl, rfl⟩ := hpair h; simp
  split at h
  · obtain ⟨rfl, rfl⟩ := hpair h; simp
  split at h
  · obtain ⟨rfl, rfl⟩ := hpair h; simp
  split at h
  next hcode =>
    have hlast := congrArg List.getLast? h
    rw [List.getLast?_concat] at hlast
    exact .inr (.inr ⟨hcode, (Option.some.inj hlast).symm⟩)
  next =>
    obtain ⟨hw, hd⟩ := List.append_inj' (show [] ++ [c] = w ++ [d] from h) rfl
    exact .inl ⟨hw.symm, List.head_eq_of_cons_eq hd⟩

/-- An escape is at least one character. -/
theorem escapeChar_ne_nil (c : Char) : escapeChar c ≠ [] := by
  rw [escapeChar]
  repeat' split
  all_goals exact List.cons_ne_nil _ _

/-- At the end of an escaped text stands the end of what its last character is written as. -/
theorem exists_of_escaped_concat {u : List Char} {d : Char} (h : cs.flatMap escapeChar = u ++ [d]) :
    ∃ cs' c w, cs = cs' ++ [c] ∧ escapeChar c = w ++ [d] ∧ u = cs'.flatMap escapeChar ++ w := by
  obtain rfl | ⟨cs, c, rfl⟩ := List.eq_nil_or_concat cs
  · simp at h
  · obtain hnil | ⟨w, d', hc⟩ := List.eq_nil_or_concat (escapeChar c)
    · exact absurd hnil (escapeChar_ne_nil c)
    · rw [List.concat_eq_append, List.flatMap_append, List.flatMap_singleton, hc,
        List.concat_eq_append, ← List.append_assoc] at h
      obtain ⟨rfl, hd⟩ := List.append_inj' h rfl
      obtain rfl := List.head_eq_of_cons_eq hd
      exact ⟨cs, c, w, List.concat_eq_append .., hc.trans (List.concat_eq_append ..), rfl⟩

/-- Characters that are the end of no escape stand for themselves at the end of an escaped text. -/
theorem exists_of_escaped_append {u ds : List Char}
    (hds : ∀ d ∈ ds, ∀ c w, escapeChar c = w ++ [d] → w = [] ∧ c = d)
    (h : cs.flatMap escapeChar = u ++ ds) : ∃ cs', cs = cs' ++ ds ∧ cs'.flatMap escapeChar = u := by
  induction ds using List.reverseRecOn generalizing cs with
  | nil => exact ⟨cs, by simp, by simpa using h⟩
  | append_singleton ds d ih =>
    rw [← List.append_assoc] at h
    obtain ⟨cs', c, w, rfl, hc, hu⟩ := exists_of_escaped_concat h
    obtain ⟨rfl, rfl⟩ := hds d (by simp) c w hc
    rw [List.append_nil] at hu
    obtain ⟨cs'', rfl, hcs''⟩ := ih (fun d hd => hds d (List.mem_append_left _ hd)) hu.symm
    exact ⟨cs'', by rw [List.append_assoc], hcs''⟩

/-- Where a path is written so that it ends in `from`, there is this word in it, or the rest of the
word behind a character whose escape ends in an `f`. -/
theorem exists_of_endsInFrom (h : EndsInFrom (quotedBody path)) :
    ∃ before c blanks, path.toList = before ++ c :: 'r' :: 'o' :: 'm' :: blanks ∧
      (c = 'f' ∨ c = '\x0f' ∨ c = '\x1f') := by
  obtain ⟨before, blanks, hblanks, hbody⟩ := h
  -- the last characters stand for themselves
  have hends : ∀ d ∈ 'o' :: 'm' :: blanks, ∀ c w, escapeChar c = w ++ [d] → w = [] ∧ c = d := by
    have hletters : ∀ x ∈ ['\\', '"', 'n', 'r', 't'], x ∉ ['o', 'm'] ∧ Text.isBlank x = false :=
      List.forall_iff_forall_mem.mp (by decide)
    have hdigits : ∀ k < 16,
        Nat.digitChar k ∉ ['o', 'm'] ∧ Text.isBlank (Nat.digitChar k) = false := by
      decide
    have hends : ∀ d ∈ 'o' :: 'm' :: blanks, ¬ (d ∉ ['o', 'm'] ∧ Text.isBlank d = false) := by
      intro d hd ⟨hletter, hblank⟩
      obtain hd | hd := List.mem_append.mp (show d ∈ ['o', 'm'] ++ blanks from hd)
      · exact hletter hd
      · rw [hblanks d hd] at hblank
        cases hblank
    intro d hd c w hc
    obtain h | ⟨-, hd'⟩ | ⟨-, rfl⟩ := escapeChar_eq_concat hc
    · exact h
    · exact absurd (hletters d hd') (hends d hd)
    · exact absurd (hdigits _ (Nat.mod_lt _ (by decide))) (hends _ hd)
  have hsplit : path.toList.flatMap escapeChar =
      (before ++ ['f'] ++ ['r']) ++ 'o' :: 'm' :: blanks := by
    rw [quotedBody] at hbody
    rw [hbody]
    simp
  obtain ⟨cs, hcs, hfr⟩ := exists_of_escaped_append hends hsplit
  obtain ⟨cs', r, w, rfl, hr, hf⟩ := exists_of_escaped_concat hfr
  have hdigit : ∀ k < 16, Nat.digitChar k ≠ 'r' ∧ (Nat.digitChar k = 'f' → k = 15) := by decide
  -- the `r` is no end of an escape, since there is an `f` in front of it
  obtain ⟨rfl, rfl⟩ : w = [] ∧ r = 'r' := by
    obtain h | ⟨rfl, -⟩ | ⟨-, hd⟩ := escapeChar_eq_concat hr
    · exact h
    · exact absurd (List.append_inj' hf rfl).2 (by decide)
    · exact absurd hd.symm (hdigit _ (Nat.mod_lt _ (by decide))).1
  rw [List.append_nil] at hf
  obtain ⟨cs'', f, w, rfl, hf, -⟩ := exists_of_escaped_concat hf.symm
  refine ⟨cs'', f, blanks, by rw [hcs]; simp, ?_⟩
  obtain ⟨-, rfl⟩ | ⟨-, hd⟩ | ⟨hcode, hd⟩ := escapeChar_eq_concat hf
  · exact .inl rfl
  · exact absurd hd (by decide)
  · have hlast := (hdigit _ (Nat.mod_lt _ (by decide))).2 hd.symm
    have hcodes : f.toNat = 0x0f ∨ f.toNat = 0x1f := by omega
    exact .inr (hcodes.imp Char.toNat_inj.mp Char.toNat_inj.mp)

/-- So no path is that holds neither the word nor one of the two characters that are written like
this. -/
theorem not_endsInFrom_quotedBody (hword : ¬ ['f', 'r', 'o', 'm'] <:+: path.toList)
    (hcontrol : '\x0f' ∉ path.toList ∧ '\x1f' ∉ path.toList) : ¬ EndsInFrom (quotedBody path) := by
  intro h
  obtain ⟨before, c, blanks, hpath, rfl | rfl | rfl⟩ := exists_of_endsInFrom h
  · exact hword ⟨before, blanks, by rw [hpath]; simp⟩
  · exact hcontrol.1 (by rw [hpath]; simp)
  · exact hcontrol.2 (by rw [hpath]; simp)

end Clause

/-! ## Rewritten texts -/

/-- A text that imports the library from a path, where another one imported it by its name. -/
structure Rewritten (path text contents : String) : Prop where
  /-- Each import is replaced by one from the path, and all other characters are kept in order. -/
  replaced : ∃ ps, Cut text.toList ps ∧
    contents.toList = ps.flatMap (Piece.rewritten (clause path))
  /-- No import by the name is left. -/
  imports_gone : ∀ before m after, contents.toList = before ++ m ++ after → ¬ IsImport m
  /-- To rewrite it once more changes nothing. -/
  stable : replace path contents = contents

/-- A text is rewritten to import the library from a path that is neither its name nor written so
that it ends in `from`. -/
theorem rewritten_replace {path : String} (hzod : path ≠ "zod")
    (hquote : ∀ c ∈ path.toList, isQuote c = false) (hend : ¬ EndsInFrom (quotedBody path))
    (text : String) : Rewritten path text (replace path text) := by
  have htext : (replace path text).toList = replaceFrom (clause path) 0 text.toList := by
    rw [replace, String.toList_ofList]
  have hfree : isFree (replaceFrom (clause path) 0 text.toList) = true :=
    isFree_replaceFrom (fun cs hcs => isFree_clause hzod hquote hend hcs) text.toList
  constructor
  case replaced =>
    obtain ⟨ps, hcut, hreplaced⟩ := exists_cut text.toList
    exact ⟨ps, hcut, htext.trans (hreplaced _)⟩
  case imports_gone =>
    rw [htext]
    exact isFree_iff.mp hfree
  case stable =>
    rw [replace, htext, replaceFrom_eq_self _ hfree, ← htext, String.ofList_toList]

/-- Where the path is written so that it ends in `from`, there is a text in which an import is left:
the quote behind the path and the name behind that make a new one. -/
theorem exists_import_of_endsInFrom {path : String} (h : EndsInFrom (quotedBody path)) :
    ∃ before m after, (replace path "from 'zod'zod'").toList = before ++ m ++ after ∧
      IsImport m := by
  obtain ⟨before, blanks, hblanks, hbody⟩ := h
  have himport : IsImport "from 'zod'".toList :=
    ⟨[' '], '\'', '\'', List.forall_mem_singleton.mpr rfl, rfl, rfl, by decide⟩
  have hrest : isFree "zod'".toList = true := by decide
  have hsplit : "from 'zod'zod'".toList = "from 'zod'".toList ++ "zod'".toList := by decide
  have htext : (replace path "from 'zod'zod'").toList = clause path ++ "zod'".toList := by
    rw [replace, String.toList_ofList, hsplit, replaceFrom_imported _ himport,
      replaceFrom_eq_self _ hrest]
  refine ⟨['f', 'r', 'o', 'm', ' ', '"'] ++ before,
    ['f', 'r', 'o', 'm'] ++ blanks ++ ['"', 'z', 'o', 'd', '\''], [], ?_,
    ⟨blanks, '"', '\'', hblanks, rfl, rfl, rfl⟩⟩
  rw [htext, clause_eq, hbody]
  simp

end LibraryImport

open LibraryImport (EndsInFrom IsImport Rewritten isQuote)

section Shared

variable {files : FileTree} {templates : Templates} {d : Dialect} {texts : List (String × String)}

/-- Where the templates can be read, the shared types are their texts, each rewritten to import the
library from where the dialect says. -/
theorem sharedTypes_rewritten (hd : d.typed = true) (hzod : d.validatorPath ≠ "zod")
    (hquote : ∀ c ∈ d.validatorPath.toList, c ≠ '\'' ∧ c ≠ '"')
    (hend : ¬ EndsInFrom (quotedBody d.validatorPath)) (htexts : templates.read files = .ok texts) :
    ∃ out, sharedTypes files templates d = .ok out ∧
      List.Forall₂ (fun text f => f.path = text.1 ∧ Rewritten d.validatorPath text.2 f.contents)
        texts out := by
  have hquote' : ∀ c ∈ d.validatorPath.toList, isQuote c = false := fun c hc => by
    simpa [isQuote] using hquote c hc
  refine ⟨_, (sharedTypes_eq_ok_iff hd).mpr ⟨texts, htexts, rfl⟩, ?_⟩
  rw [List.forall₂_map_right_iff, List.forall₂_same]
  exact fun text _ => ⟨rfl, LibraryImport.rewritten_replace hzod hquote' hend text.2⟩

end Shared

/-- A dialect that imports the library from a file of its own. -/
def vendored : Dialect := { Dialect.typescript with validatorPath := "./zod.js" }

/-- The shared types that come with the program import the library from there. -/
theorem sharedTypes_rewritten_vendored :
    vendored.typed = true ∧ vendored.validatorPath ≠ "zod" ∧
      (∀ c ∈ vendored.validatorPath.toList, c ≠ '\'' ∧ c ≠ '"') ∧
      ¬ EndsInFrom (quotedBody vendored.validatorPath) ∧
      Templates.builtin.read ⟨[], []⟩ = .ok [("types.ts", typesTemplate)] ∧
      ∃ out, sharedTypes ⟨[], []⟩ .builtin vendored = .ok out ∧
        List.Forall₂ (fun text f => f.path = text.1 ∧
          Rewritten vendored.validatorPath text.2 f.contents) [("types.ts", typesTemplate)] out := by
  have htyped : vendored.typed = true := rfl
  have hzod : vendored.validatorPath ≠ "zod" := by decide
  have hquote : ∀ c ∈ vendored.validatorPath.toList, c ≠ '\'' ∧ c ≠ '"' :=
    List.forall_iff_forall_mem.mp (by decide)
  have hend : ¬ EndsInFrom (quotedBody vendored.validatorPath) :=
    LibraryImport.not_endsInFrom_quotedBody (by decide) (by decide)
  exact ⟨htyped, hzod, hquote, hend, rfl, sharedTypes_rewritten htyped hzod hquote hend rfl⟩

/-- A dialect whose path holds a control character: it is written as `\u000from`. -/
def controlled : Dialect := { Dialect.typescript with validatorPath := "\x0from" }

/-- A disk with a template in which the name of the library follows an import. -/
def withRepeatedName : FileTree where
  entries := [
    (["pkg"], .directory),
    (["pkg", "templates"], .directory),
    (["pkg", "templates", "typescript"], .directory),
    (["pkg", "templates", "typescript", "types.ts"], .file "from 'zod'zod'".toUTF8)]
  current := []

/-- The path does not hold the word `from`, but what it is written as does.  So an import is left in
the shared types, and to rewrite them once more changes them. -/
theorem import_left_by_escape :
    controlled.typed = true ∧ controlled.validatorPath ≠ "zod" ∧
      (∀ c ∈ controlled.validatorPath.toList, c ≠ '\'' ∧ c ≠ '"' ∧ c ≠ '\\') ∧
      ¬ ['f', 'r', 'o', 'm'] <:+: controlled.validatorPath.toList ∧
      sharedTypes withRepeatedName (.below "pkg") controlled =
        .ok [⟨"typescript", "types.ts", "from \"\\u000from\"zod'"⟩] ∧
      (∃ before m after, "from \"\\u000from\"zod'".toList = before ++ m ++ after ∧ IsImport m) ∧
      LibraryImport.replace controlled.validatorPath "from \"\\u000from\"zod'" =
        "from \"\\u000from \"\\u000from\"" := by
  have hrewritten : LibraryImport.replace controlled.validatorPath "from 'zod'zod'" =
      "from \"\\u000from\"zod'" := by decide
  have hend : EndsInFrom (quotedBody controlled.validatorPath) :=
    ⟨['\\', 'u', '0', '0', '0'], [], List.forall_mem_nil _, by decide⟩
  have hleft := LibraryImport.exists_import_of_endsInFrom hend
  rw [hrewritten] at hleft
  have htext : withRepeatedName.readText (Path.joinAll (Path.join "pkg" templateDir) ["types.ts"]) =
      .ok "from 'zod'zod'" :=
    FileTree.readText_eq_ok_iff.mpr ⟨["pkg", "templates", "typescript", "types.ts"], _, rfl, rfl,
      FileTree.fromUTF8?_toUTF8 _⟩
  have hread : (Templates.below "pkg").read withRepeatedName =
      .ok [("types.ts", "from 'zod'zod'")] := by
    have hfound : collectFiles withRepeatedName (withRepeatedName.entries.length + 1)
        (Path.join "pkg" templateDir) = .ok [["types.ts"]] := rfl
    rw [read_below_of_collectFiles hfound, List.mergeSort_singleton, List.mapM_cons, readTemplate,
      htext]
    rfl
  refine ⟨rfl, by decide, List.forall_iff_forall_mem.mp (by decide), by decide, ?_, hleft,
    by decide⟩
  rw [← hrewritten]
  exact (sharedTypes_eq_ok_iff rfl).mpr ⟨_, hread, rfl⟩

end Promptwright
