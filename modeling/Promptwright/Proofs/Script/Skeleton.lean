import Promptwright.Proofs.Script.Spelling

/-!
# What is left of a script without its texts

`skeleton` lexes a script and drops its comments and what stands between double quotes.  Some
pieces of scripts have a skeleton of their own, whatever follows them: code without quotes and
slashes, string literals, comments, and pieces in a row.  Two texts that are `Alike` are made of
pieces with the same skeletons.

## Key results

- `Leaves.append`: pieces in a row
- `leaves_code`, `leaves_literal`, `leaves_comment`: code, literals and comments
- `Alike.skeleton_eq`: alike scripts have the same skeleton
-/

namespace Promptwright.Script

/-! ## Lexing -/

/-- What a character of a script is part of. -/
inductive Region
  | code
  | double
  | single
  | template
  | line
  | block

/-- Whether a character ends a line of a script. -/
def endsLine (c : Char) : Bool :=
  c = '\n' || c = '\r' || c.toNat = 0x2028 || c.toNat = 0x2029

/-- Whether a character may not stand in a string literal.  The separators U+2028 and U+2029 may. -/
def endsString (c : Char) : Bool := c = '\n' || c = '\r'

/-- The characters of a script from some region on, without comments and without what stands
between double quotes. -/
def skeletonFrom : Region → List Char → List Char
  | _, [] => []
  | .code, '/' :: '/' :: cs => skeletonFrom .line cs
  | .code, '/' :: '*' :: cs => skeletonFrom .block cs
  | .code, c :: cs =>
    if c = '"' then c :: skeletonFrom .double cs
    else if c = '\'' then c :: skeletonFrom .single cs
    else if c = '\x60' then c :: skeletonFrom .template cs
    else c :: skeletonFrom .code cs
  | .double, '\\' :: _ :: cs => skeletonFrom .double cs
  | .double, c :: cs =>
    if c = '"' || endsString c then c :: skeletonFrom .code cs else skeletonFrom .double cs
  | .single, '\\' :: c :: cs => '\\' :: c :: skeletonFrom .single cs
  | .single, c :: cs =>
    if c = '\'' || endsString c then c :: skeletonFrom .code cs
    else c :: skeletonFrom .single cs
  | .template, '\\' :: c :: cs => '\\' :: c :: skeletonFrom .template cs
  | .template, c :: cs =>
    if c = '\x60' then c :: skeletonFrom .code cs else c :: skeletonFrom .template cs
  | .line, c :: cs =>
    if endsLine c then c :: skeletonFrom .code cs else skeletonFrom .line cs
  | .block, '*' :: '/' :: cs => skeletonFrom .code cs
  | .block, _ :: cs => skeletonFrom .block cs

/-- A script without its comments and with empty string literals for those in double quotes. -/
def skeleton (script : String) : String := String.ofList (skeletonFrom .code script.toList)

example : skeleton "a(\"/* \\\" */\", 'b') /* c\" */ + 1 // \"d" = "a(\"\", 'b')  + 1 " := by decide

/-! ## Pieces -/

/-- A piece of a script leaves some code, whatever follows it. -/
def Leaves (piece code : List Char) : Prop :=
  ∀ rest, skeletonFrom .code (piece ++ rest) = code ++ skeletonFrom .code rest

/-- Whether a character is code wherever it stands in code. -/
def isCode (c : Char) : Bool := c != '/' && c != '"' && c != '\'' && c != '\x60'

/-- A text whose characters are all code. -/
def CodeText (t : String) : Prop := ∀ c ∈ t.toList, isCode c = true

-- looks at the characters of the text only, not at all characters there are
instance (t : String) : Decidable (CodeText t) :=
  decidable_of_iff (t.toList.all isCode = true) List.all_eq_true

/-- Pieces in a row leave their code in a row. -/
theorem Leaves.append {t u k l : List Char} (h : Leaves t k) (h' : Leaves u l) :
    Leaves (t ++ u) (k ++ l) := by
  intro rest
  rw [List.append_assoc, h, h', List.append_assoc]

/-- A character of code is left as it is. -/
theorem skeletonFrom_code {c : Char} (hc : isCode c = true) (cs : List Char) :
    skeletonFrom .code (c :: cs) = c :: skeletonFrom .code cs := by
  simp only [isCode, Bool.and_eq_true, bne_iff_ne, ne_eq] at hc
  obtain ⟨⟨⟨hslash, hdouble⟩, hsingle⟩, htick⟩ := hc
  rw [skeletonFrom, if_neg hdouble, if_neg hsingle, if_neg htick]
  · exact fun _ h => (hslash h).elim
  · exact fun _ h => (hslash h).elim

/-- Code is left as it is. -/
theorem leaves_code {t : List Char} (h : ∀ c ∈ t, isCode c = true) : Leaves t t := by
  intro rest
  induction t with
  | nil => rfl
  | cons c t ih =>
    rw [List.cons_append, skeletonFrom_code (h c List.mem_cons_self),
      ih fun c hc => h c (List.mem_cons_of_mem _ hc)]
    rfl

/-- Between double quotes, other characters are dropped. -/
theorem skeletonFrom_double_plain {c : Char} (hq : c ≠ '"') (hb : c ≠ '\\')
    (he : endsString c = false) (cs : List Char) :
    skeletonFrom .double (c :: cs) = skeletonFrom .double cs := by
  rw [skeletonFrom]
  · rw [he, if_neg (by simp [hq])]
  · exact fun _ _ h => (hb h).elim

/-- A hexadecimal digit is no quote, no backslash and no end of a line. -/
theorem plain_of_hexValue {c : Char} {i : Nat} (h : hexValue c = some i) :
    c ≠ '"' ∧ c ≠ '\\' ∧ endsString c = false := by
  have hall : ∀ j ∈ List.range 16, Nat.digitChar j ≠ '"' ∧ Nat.digitChar j ≠ '\\' ∧
      endsString (Nat.digitChar j) = false := by decide
  have hc : (Nat.digitChar i == c) = true :=
    List.find?_some (p := fun j => Nat.digitChar j == c) h
  have hc := beq_iff_eq.mp hc
  exact hc ▸ hall i (List.mem_of_find?_eq_some h)

/-- What is spelled between double quotes goes up to the quote behind it. -/
theorem skeletonFrom_double {body s : List Char} (h : Spells body s) (rest : List Char) :
    skeletonFrom .double (body ++ '"' :: rest) = '"' :: skeletonFrom .code rest := by
  induction h with
  | nil => rfl
  | plain hq hb hn hr _ ih =>
    rw [List.cons_append, skeletonFrom_double_plain hq hb (by simp [endsString, hn, hr]), ih]
  | escape _ _ ih => exact ih
  | unicode ha hb hc hd _ _ ih =>
    have hplain : ∀ {x i} (cs : List Char), hexValue x = some i →
        skeletonFrom .double (x :: cs) = skeletonFrom .double cs := by
      intro x i cs hx
      obtain ⟨hq, hb, he⟩ := plain_of_hexValue hx
      exact skeletonFrom_double_plain hq hb he cs
    simp only [List.cons_append]
    rw [skeletonFrom, hplain _ ha, hplain _ hb, hplain _ hc, hplain _ hd, ih]

/-- A literal leaves an empty one. -/
theorem leaves_literal {body s : List Char} (h : Spells body s) :
    Leaves ('"' :: body ++ ['"']) ['"', '"'] := by
  intro rest
  have hopen : ∀ cs, skeletonFrom .code ('"' :: cs) = '"' :: skeletonFrom .double cs := fun _ => rfl
  rw [List.cons_append, List.cons_append, List.append_assoc, hopen, List.singleton_append,
    skeletonFrom_double h]
  rfl

/-- What stands in a comment goes up to its end. -/
theorem skeletonFrom_block {body : List Char} (h : CommentBody body) (rest : List Char) :
    skeletonFrom .block (body ++ '*' :: '/' :: rest) = skeletonFrom .code rest := by
  induction body with
  | nil => rfl
  | cons c body ih =>
    have hbody : CommentBody body := fun hin => h (List.infix_cons_iff.mpr (.inr hin))
    rw [List.cons_append, skeletonFrom, ih hbody]
    -- the rest does not start with a slash behind a star
    rintro cs rfl hcs
    cases body with
    | nil => cases hcs
    | cons c' body =>
      cases hcs
      exact h ⟨[], body, rfl⟩

/-- A comment leaves nothing. -/
theorem leaves_comment {body : List Char} (h : CommentBody body) :
    Leaves ('/' :: '*' :: body ++ ['*', '/']) [] := by
  intro rest
  have hopen : ∀ cs, skeletonFrom .code ('/' :: '*' :: cs) = skeletonFrom .block cs := fun _ => rfl
  rw [List.cons_append, List.cons_append, List.cons_append, List.cons_append, hopen,
    List.append_assoc]
  exact skeletonFrom_block h rest

/-! ## Alike texts -/

/-- Two texts leave the same code, whatever follows them. -/
def Alike (t u : String) : Prop := ∃ code, Leaves t.toList code ∧ Leaves u.toList code

namespace Alike

variable {t u t' u' : String}

/-- Texts in a row are alike one by one. -/
theorem append (h : Alike t u) (h' : Alike t' u') : Alike (t ++ t') (u ++ u') := by
  obtain ⟨k, ht, hu⟩ := h
  obtain ⟨l, ht', hu'⟩ := h'
  refine ⟨k ++ l, ?_, ?_⟩
  · rw [String.toList_append]
    exact ht.append ht'
  · rw [String.toList_append]
    exact hu.append hu'

/-- Code is alike itself. -/
theorem code (h : CodeText t) : Alike t t :=
  ⟨t.toList, leaves_code h, leaves_code h⟩

/-- All literals are alike. -/
theorem literal {s s' : String} (h : Literal t s) (h' : Literal u s') : Alike t u := by
  obtain ⟨body, ht, hs⟩ := h
  obtain ⟨body', hu, hs'⟩ := h'
  refine ⟨['"', '"'], ?_, ?_⟩
  · rw [ht]
    exact leaves_literal hs
  · rw [hu]
    exact leaves_literal hs'

/-- All script literals are alike. -/
theorem quote (s s' : String) : Alike (quote s) (quote s') :=
  literal (literal_quote s) (literal_quote s')

/-- All JSON strings are alike. -/
theorem quoted (s s' : String) : Alike (Json.quoted s) (Json.quoted s') :=
  literal (literal_quoted s) (literal_quoted s')

/-- All comments on gaps are alike. -/
theorem comment (g g' : Validator.Gap) : Alike g.comment g'.comment := by
  have hleaves : ∀ g : Validator.Gap, Leaves g.comment.toList [] := by
    intro g
    obtain ⟨c, hc, hg⟩ := exists_comment_eq g
    rw [hg, String.toList_append, String.toList_append]
    exact leaves_comment hc
  exact ⟨[], hleaves g, hleaves g'⟩

/-- Alike scripts have the same skeleton. -/
theorem skeleton_eq (h : Alike t u) : skeleton t = skeleton u := by
  obtain ⟨k, ht, hu⟩ := h
  have ht := ht []
  have hu := hu []
  rw [List.append_nil] at ht hu
  rw [skeleton, skeleton, ht, hu]

end Alike

end Promptwright.Script
