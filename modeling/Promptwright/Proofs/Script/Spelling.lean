import Promptwright.Json.Printer
import Promptwright.Script.Literal
import Promptwright.Validator.Text

/-!
# What string literals and comments say

`Spells` relates what stands between the double quotes of a script literal to the text that the
literal stands for, as scripts read it: a raw quote, backslash or end of line may not stand there.
Both ways in which literals are written, `Script.quote` and `Json.quoted`, are right about it.
A comment holds anything but its own end, and `Gap.comment` makes sure of that.

## Key results

- `spells_flatMap_escapeChar`, `spells_flatMap_jsonEscapeChar`: escaped characters spell the text
- `literal_quote`, `literal_quoted`: literals stand for the texts they are made from
- `Spells.unique`: a literal stands for one text only
- `exists_comment_eq`: the comment on a gap is one comment
-/

namespace Promptwright.Script

/-- The character that a letter stands for behind a backslash. -/
def escaped : Char → Option Char
  | '"' => some '"'
  | '\\' => some '\\'
  | 'n' => some '\n'
  | 'r' => some '\r'
  | 't' => some '\t'
  | 'b' => some (Char.ofNat 8)
  | 'f' => some (Char.ofNat 12)
  | _ => none

/-- The value of a hexadecimal digit in lower case. -/
def hexValue (c : Char) : Option Nat := (List.range 16).find? fun i => Nat.digitChar i == c

/-- What may stand between double quotes, and the text that it spells. -/
inductive Spells : List Char → List Char → Prop
  | nil : Spells [] []
  | plain {c : Char} {t s : List Char} (hq : c ≠ '"') (hb : c ≠ '\\') (hn : c ≠ '\n')
      (hr : c ≠ '\r') (h : Spells t s) : Spells (c :: t) (c :: s)
  | escape {e c : Char} {t s : List Char} (he : escaped e = some c) (h : Spells t s) :
      Spells ('\\' :: e :: t) (c :: s)
  | unicode {a b c d x : Char} {i j k l : Nat} {t s : List Char} (ha : hexValue a = some i)
      (hb : hexValue b = some j) (hc : hexValue c = some k) (hd : hexValue d = some l)
      (hx : x.toNat = ((i * 16 + j) * 16 + k) * 16 + l) (h : Spells t s) :
      Spells ('\\' :: 'u' :: a :: b :: c :: d :: t) (x :: s)

/-- A literal and the text that it stands for. -/
def Literal (text value : String) : Prop :=
  ∃ body, text.toList = '"' :: body ++ ['"'] ∧ Spells body value.toList

/-! ## Writing literals -/

/-- The value of a digit that is written. -/
theorem hexValue_digitChar {n : Nat} (h : n < 16) : hexValue (Nat.digitChar n) = some n := by
  have hall : ∀ i : Fin 16, hexValue (Nat.digitChar i) = some i.val := by decide
  exact hall ⟨n, h⟩

/-- Four digits spell a character. -/
theorem Spells.hex4 {x : Char} {t s : List Char} (hx : x.toNat < 65536) (h : Spells t s) :
    Spells ('\\' :: 'u' :: Script.hex4 x.toNat ++ t) (x :: s) := by
  have hlt : ∀ n, n % 16 < 16 := fun n => Nat.mod_lt n (by decide)
  exact .unicode (hexValue_digitChar (hlt _)) (hexValue_digitChar (hlt _))
    (hexValue_digitChar (hlt _)) (hexValue_digitChar (hlt _)) (by omega) h

/-- A character is written by a letter, or by its digits, or it stands for itself. -/
theorem escapeChar_cases (c : Char) :
    (∃ e, escapeChar c = ['\\', e] ∧ escaped e = some c) ∨
    (escapeChar c = '\\' :: 'u' :: hex4 c.toNat ∧ c.toNat < 0x10000) ∨
    (escapeChar c = [c] ∧ c ≠ '\\' ∧ c ≠ '"' ∧
      0x20 ≤ c.toNat ∧ c.toNat ≠ 0x2028 ∧ c.toNat ≠ 0x2029) := by
  unfold escapeChar
  -- five characters have a letter, and the last two tests are about control characters
  split
  · next hc =>
    subst hc
    exact .inl ⟨'\\', rfl, rfl⟩
  split
  · next hc =>
    subst hc
    exact .inl ⟨'"', rfl, rfl⟩
  split
  · next hc =>
    subst hc
    exact .inl ⟨'n', rfl, rfl⟩
  split
  · next hc =>
    subst hc
    exact .inl ⟨'r', rfl, rfl⟩
  split
  · next hc =>
    subst hc
    exact .inl ⟨'t', rfl, rfl⟩
  split
  · exact .inr (.inl ⟨rfl, by omega⟩)
  · next hbackslash hquote _ _ _ hcode =>
    exact .inr (.inr ⟨rfl, hbackslash, hquote, by omega, by omega, by omega⟩)

/-- A character as scripts write it. -/
theorem Spells.escapeChar {t s : List Char} (c : Char) (h : Spells t s) :
    Spells (Script.escapeChar c ++ t) (c :: s) := by
  obtain ⟨e, hc, he⟩ | ⟨hc, hlt⟩ | ⟨hc, hb, hq, hcode, -⟩ := escapeChar_cases c
  · rw [hc]
    exact .escape he h
  · rw [hc]
    exact .hex4 hlt h
  · -- neither end of a line stands for itself
    have hend : c ≠ '\n' ∧ c ≠ '\r' := by
      constructor <;> (rintro rfl; revert hcode; decide)
    rw [hc]
    exact .plain hq hb hend.1 hend.2 h

/-- A character as JSON writes it. -/
theorem Spells.jsonEscapeChar {t s : List Char} (c : Char) (h : Spells t s) :
    Spells (Json.escapeChar c ++ t) (c :: s) := by
  rw [Json.escapeChar]
  by_cases hq : c = '"'
  · subst hq
    exact .escape rfl h
  rw [if_neg hq]
  by_cases hb : c = '\\'
  · subst hb
    exact .escape rfl h
  rw [if_neg hb]
  by_cases hn : c = '\n'
  · subst hn
    exact .escape rfl h
  rw [if_neg hn]
  by_cases hr : c = '\r'
  · subst hr
    exact .escape rfl h
  rw [if_neg hr]
  by_cases ht : c = '\t'
  · subst ht
    exact .escape rfl h
  rw [if_neg ht]
  split
  next hc =>
    obtain rfl : c = Char.ofNat 8 := Char.toNat_inj.mp hc
    exact .escape rfl h
  split
  next hc =>
    obtain rfl : c = Char.ofNat 12 := Char.toNat_inj.mp hc
    exact .escape rfl h
  split
  next hc =>
    -- the first two of the four digits are zeros
    have hlt : ∀ n, n % 16 < 16 := fun n => Nat.mod_lt n (by decide)
    exact .unicode (i := 0) (j := 0) rfl rfl (hexValue_digitChar (hlt _))
      (hexValue_digitChar (hlt _)) (by omega) h
  · exact .plain hq hb hn hr h

/-- Escaped characters spell the text that they come from. -/
theorem spells_flatMap_escapeChar (cs : List Char) : Spells (cs.flatMap escapeChar) cs := by
  induction cs with
  | nil => exact .nil
  | cons c cs ih => exact ih.escapeChar c

/-- The same for the escapes of JSON. -/
theorem spells_flatMap_jsonEscapeChar (cs : List Char) :
    Spells (cs.flatMap Json.escapeChar) cs := by
  induction cs with
  | nil => exact .nil
  | cons c cs ih => exact ih.jsonEscapeChar c

/-- A script literal stands for the text that it is made from. -/
theorem literal_quote (s : String) : Literal (quote s) s :=
  ⟨s.toList.flatMap escapeChar, by rw [quote, quoteChars, String.toList_ofList],
    spells_flatMap_escapeChar s.toList⟩

/-- A JSON string stands for the text that it is made from. -/
theorem literal_quoted (s : String) : Literal (Json.quoted s) s :=
  ⟨s.toList.flatMap Json.escapeChar, by
    simp only [Json.quoted, String.toList_append, String.toList_ofList]
    rfl, spells_flatMap_jsonEscapeChar s.toList⟩

/-! ## Reading literals -/

/-- A letter behind a backslash is no `u`. -/
theorem ne_of_escaped {e c : Char} (h : escaped e = some c) : e ≠ 'u' := by
  rintro rfl
  cases h

/-- A literal stands for one text only. -/
theorem Spells.unique {t s s' : List Char} (h : Spells t s) (h' : Spells t s') : s = s' := by
  induction h generalizing s' with
  | nil =>
    cases h'
    rfl
  | plain _ hb _ _ _ ih =>
    -- each spelling starts with another character, or has another one behind the backslash
    cases h' with
    | plain _ _ _ _ h' => rw [ih h']
    | escape _ _ => exact (hb rfl).elim
    | unicode _ _ _ _ _ _ => exact (hb rfl).elim
  | escape he _ ih =>
    cases h' with
    | plain _ hb _ _ _ => exact (hb rfl).elim
    | escape he' h' =>
      rw [he] at he'
      cases he'
      rw [ih h']
    | unicode _ _ _ _ _ _ => exact (ne_of_escaped he rfl).elim
  | unicode ha hb hc hd hx _ ih =>
    cases h' with
    | plain _ hb _ _ _ => exact (hb rfl).elim
    | escape he _ => exact (ne_of_escaped he rfl).elim
    | unicode ha' hb' hc' hd' hx' h' =>
      rw [ha] at ha'
      rw [hb] at hb'
      rw [hc] at hc'
      rw [hd] at hd'
      cases ha'
      cases hb'
      cases hc'
      cases hd'
      rw [ih h', Char.toNat_inj.mp (hx.trans hx'.symm)]

/-! ## Comments -/

/-- What may stand in a comment. -/
def CommentBody (cs : List Char) : Prop := ¬ ['*', '/'] <:+: cs

/-- Without a star there is no end. -/
theorem commentBody_of_not_mem {cs : List Char} (h : '*' ∉ cs) : CommentBody cs :=
  fun hin => h (hin.subset List.mem_cons_self)

/-- A comment goes on behind a character that does not start its end. -/
theorem CommentBody.cons {c : Char} {cs : List Char} (h : CommentBody cs)
    (hc : c = '*' → cs.head? ≠ some '/') : CommentBody (c :: cs) := by
  intro hin
  obtain hpre | hin := List.infix_cons_iff.mp hin
  · obtain ⟨hstar, hpre⟩ := List.cons_prefix_cons.mp hpre
    obtain ⟨rest, rfl⟩ := hpre
    exact hc hstar.symm rfl
  · exact h hin

/-- Two bodies make one unless an end stands across them. -/
theorem CommentBody.append {cs ds : List Char} (h : CommentBody cs) (h' : CommentBody ds)
    (hd : ds.head? ≠ some '/') : CommentBody (cs ++ ds) := by
  induction cs with
  | nil => exact h'
  | cons c cs ih =>
    refine (ih fun hin => h (List.infix_cons_iff.mpr (.inr hin))).cons ?_
    rintro rfl hhead
    cases cs with
    | nil => exact hd hhead
    | cons c' cs =>
      cases Option.some.inj hhead
      exact h ⟨[], cs, rfl⟩

open Validator (breakCommentEnds)

/-- Breaking up the ends of comments leaves the first character as it is. -/
theorem head?_breakCommentEnds (cs : List Char) : (breakCommentEnds cs).head? = cs.head? := by
  fun_cases breakCommentEnds cs <;> rfl

/-- No end is left when all of them are broken up. -/
theorem commentBody_breakCommentEnds (cs : List Char) : CommentBody (breakCommentEnds cs) := by
  fun_induction breakCommentEnds cs with
  | case1 cs ih =>
    refine ((ih.cons fun h => ?_).cons fun h => ?_).cons fun _ => ?_
    · exact absurd h (by decide)
    · exact absurd h (by decide)
    · exact fun h => absurd (Option.some.inj h) (by decide)
  | case2 c cs hne ih =>
    refine ih.cons ?_
    rintro rfl hhead
    rw [head?_breakCommentEnds] at hhead
    cases cs with
    | nil => cases hhead
    | cons c' cs =>
      cases Option.some.inj hhead
      exact hne cs rfl rfl
  | case3 => exact commentBody_of_not_mem List.not_mem_nil

/-- The comment on a gap is one comment. -/
theorem exists_comment_eq (g : Validator.Gap) :
    ∃ c, CommentBody c.toList ∧ g.comment = "/*" ++ c ++ "*/" := by
  refine ⟨" " ++ String.ofList (breakCommentEnds g.reason.toList) ++ ": accepting any value ",
    ?_, ?_⟩
  · simp only [String.toList_append, String.toList_ofList]
    have hrest : CommentBody ": accepting any value ".toList := commentBody_of_not_mem (by decide)
    refine .cons (.append (commentBody_breakCommentEnds _) hrest (by decide)) fun h => ?_
    exact absurd h (by decide)
  · have hopening : "/* " = "/*" ++ " " := by decide
    have hclosing : ": accepting any value */" = ": accepting any value " ++ "*/" := by decide
    rw [Validator.Gap.comment, hopening, hclosing]
    simp only [String.append_assoc]

end Promptwright.Script
