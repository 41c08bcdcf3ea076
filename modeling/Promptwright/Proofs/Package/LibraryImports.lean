import Promptwright.Proofs.Package.SharedTypes
import Promptwright.Proofs.Text.Lines

/-!
# Imports of the validator library

The imports of a text are replaced one after the other.  No two of them overlap, since `f` is the
first character of each and no other one, so what is replaced are all imports and nothing else.  For
the same reason none arises where a replacement meets the text in front of it.

## Key results

- `length?_eq_some_iff`: what is taken for an import
- `exists_cut`: a text in its imports and the characters between them
- `isFree_iff`: where the library is not imported
- `isFree_replaceFrom`: replacements that bring no import along leave none
-/

namespace Promptwright

namespace LibraryImport

variable {cs m rest replacement : List Char} {c : Char} {n : Nat}

/-! ## What an import is -/

/-- Characters that import the library: `from`, white space, and its name between quotes. -/
def IsImport (m : List Char) : Prop :=
  ∃ blanks q r, (∀ c ∈ blanks, Text.isBlank c = true) ∧ isQuote q = true ∧ isQuote r = true ∧
    m = ['f', 'r', 'o', 'm'] ++ blanks ++ [q, 'z', 'o', 'd', r]

/-- A quote is a single or a double one. -/
theorem isQuote_iff {q : Char} : isQuote q = true ↔ q = '\'' ∨ q = '"' := by
  simp [isQuote]

/-- A quote is no white space. -/
theorem isBlank_eq_false_of_isQuote {q : Char} (h : isQuote q = true) : Text.isBlank q = false := by
  obtain rfl | rfl := isQuote_iff.mp h <;> decide

/-- So white space ends in front of one. -/
theorem isBlank_head?_eq_false {q : Char} (h : isQuote q = true) (cs : List Char) :
    ∀ x, (q :: cs).head? = some x → Text.isBlank x = false := by
  rintro x ⟨⟩
  exact isBlank_eq_false_of_isQuote h

/-- The length of what imports the library at the start of a text. -/
theorem length?_eq_some_iff :
    length? cs = some n ↔ ∃ m rest, cs = m ++ rest ∧ IsImport m ∧ m.length = n := by
  constructor
  · intro h
    rw [length?.eq_def] at h
    split at h
    next cs =>
      -- the blanks behind the word are taken, and what follows is the name between quotes
      have hcut := List.takeWhile_append_dropWhile (p := Text.isBlank) (l := cs)
      dsimp only at h
      split at h
      next q r rest hdrop =>
        split at h
        next hquotes =>
          obtain ⟨hq, hr⟩ := Bool.and_eq_true_iff.mp hquotes
          refine ⟨['f', 'r', 'o', 'm'] ++ cs.takeWhile Text.isBlank ++ [q, 'z', 'o', 'd', r], rest,
            ?_, ⟨_, q, r, fun c hc => List.mem_takeWhile_imp hc, hq, hr, rfl⟩, ?_⟩
          · rw [hdrop] at hcut
            simp only [List.append_assoc, List.cons_append, List.nil_append, hcut]
          · have hn := Option.some.inj h
            simp
            omega
        next => cases h
      next => cases h
    next => cases h
  · rintro ⟨m, rest, rfl, ⟨blanks, q, r, hblanks, hq, hr, rfl⟩, rfl⟩
    have hspan := Text.span_append hblanks (isBlank_head?_eq_false hq ('z' :: 'o' :: 'd' :: r :: rest))
    simp [length?, hspan, hq, hr]
    omega

/-- Where a text does not start with an import. -/
theorem length?_eq_none_iff : length? cs = none ↔ ∀ m rest, cs = m ++ rest → ¬ IsImport m := by
  rw [Option.eq_none_iff_forall_ne_some]
  constructor
  · exact fun h m rest heq hm => h m.length (length?_eq_some_iff.mpr ⟨m, rest, heq, hm, rfl⟩)
  · intro h n hn
    obtain ⟨m, rest, heq, hm, -⟩ := length?_eq_some_iff.mp hn
    exact h m rest heq hm

/-- At the start of a text, there is one import at most. -/
theorem IsImport.unique {m' rest' : List Char} (h : IsImport m) (h' : IsImport m')
    (heq : m ++ rest = m' ++ rest') : m = m' ∧ rest = rest' := by
  have hm := length?_eq_some_iff.mpr ⟨m, rest, rfl, h, rfl⟩
  have hm' := length?_eq_some_iff.mpr ⟨m', rest', heq, h', rfl⟩
  exact List.append_inj heq (Option.some.inj (hm.symm.trans hm'))

/-- An import starts with an `f` and holds no other one. -/
theorem IsImport.exists_tail (h : IsImport m) : ∃ w, m = 'f' :: w ∧ 'f' ∉ w := by
  obtain ⟨blanks, q, r, hblanks, hq, hr, rfl⟩ := h
  have hf : Text.isBlank 'f' = false ∧ isQuote 'f' = false := by decide
  refine ⟨['r', 'o', 'm'] ++ blanks ++ [q, 'z', 'o', 'd', r], rfl, ?_⟩
  have hblank : 'f' ∉ blanks := fun hmem => by simpa [hf.1] using hblanks 'f' hmem
  have hne : 'f' ≠ q ∧ 'f' ≠ r := by
    constructor <;> rintro rfl <;> simp_all
  simp [hblank, hne]

/-! ## Going through a text -/

/-- A text is gone through import by import, and character by character between them. -/
theorem scan_induction {P : List Char → Prop} (nil : P [])
    (imported : ∀ m rest, IsImport m → P rest → P (m ++ rest))
    (kept : ∀ c cs, length? (c :: cs) = none → P cs → P (c :: cs)) (cs : List Char) : P cs := by
  -- on the length, as an import takes several characters at once
  induction hn : cs.length using Nat.strongRecOn generalizing cs with
  | ind n ih =>
  subst hn
  cases cs with
  | nil => exact nil
  | cons c cs =>
    cases h : length? (c :: cs) with
    | none => exact kept c cs h (ih _ (Nat.lt_succ_self _) cs rfl)
    | some n =>
      obtain ⟨m, rest, heq, hm, rfl⟩ := length?_eq_some_iff.mp h
      obtain ⟨w, rfl, -⟩ := hm.exists_tail
      rw [heq]
      refine imported _ rest hm (ih _ ?_ rest rfl)
      rw [heq, List.length_append, List.length_cons]
      omega

/-- What is skipped is left out. -/
theorem replaceFrom_skip (replacement : List Char) (n : Nat) (cs : List Char) :
    replaceFrom replacement n cs = replaceFrom replacement 0 (cs.drop n) := by
  induction cs generalizing n with
  | nil => cases n <;> rfl
  | cons c cs ih =>
    cases n with
    | zero => rfl
    | succ n => rw [replaceFrom, ih, List.drop_succ_cons]

/-- Each import is replaced. -/
theorem replaceFrom_imported (replacement : List Char) (h : IsImport m) (rest : List Char) :
    replaceFrom replacement 0 (m ++ rest) = replacement ++ replaceFrom replacement 0 rest := by
  have hlength := length?_eq_some_iff.mpr ⟨m, rest, rfl, h, rfl⟩
  obtain ⟨w, rfl, -⟩ := h.exists_tail
  rw [List.cons_append] at hlength ⊢
  rw [replaceFrom, hlength]
  simp only [List.length_cons, Nat.add_sub_cancel]
  rw [replaceFrom_skip, List.drop_left]

/-- Each character between imports is kept. -/
theorem replaceFrom_kept (replacement : List Char) (h : length? (c :: cs) = none) :
    replaceFrom replacement 0 (c :: cs) = c :: replaceFrom replacement 0 cs := by
  rw [replaceFrom, h]

/-! ## The imports of a text and what is between them -/

/-- A piece of a text: a character that is kept, or an import. -/
inductive Piece
  | kept (c : Char)
  | imported (m : List Char)

namespace Piece

/-- The characters of a piece. -/
def text : Piece → List Char
  | kept c => [c]
  | imported m => m

/-- The characters that a piece is rewritten to. -/
def rewritten (replacement : List Char) : Piece → List Char
  | kept c => [c]
  | imported _ => replacement

end Piece

/-- A text in pieces, so that the imports among them are all that there are in the text. -/
structure Cut (cs : List Char) (ps : List Piece) : Prop where
  text : ps.flatMap Piece.text = cs
  isImport : ∀ m, .imported m ∈ ps → IsImport m
  all : ∀ before m after, IsImport m → cs = before ++ m ++ after →
    ∃ front back, ps = front ++ .imported m :: back ∧ front.flatMap Piece.text = before

/-- Behind an import, the next one starts where the first one ends or later. -/
theorem exists_of_append_eq {before m' after : List Char} (h : IsImport m) (h' : IsImport m')
    (heq : m ++ rest = before ++ m' ++ after) :
    (before = [] ∧ m' = m) ∨ ∃ between, before = m ++ between ∧ rest = between ++ m' ++ after := by
  cases before with
  | nil =>
    rw [List.nil_append] at heq
    exact .inl ⟨rfl, (h'.unique h heq.symm).1⟩
  | cons c before =>
    -- there is no other `f` for the next one to start with
    obtain ⟨w, rfl, hw⟩ := h.exists_tail
    obtain ⟨w', rfl, -⟩ := h'.exists_tail
    simp only [List.cons_append, List.cons.injEq, List.append_assoc] at heq
    obtain ⟨rfl, heq⟩ := heq
    obtain ⟨between, rfl, hrest⟩ | ⟨between, rfl, hafter⟩ := List.append_eq_append_iff.mp heq
    · refine .inr ⟨between, rfl, ?_⟩
      rw [hrest]
      simp
    · cases between with
      | nil => exact .inr ⟨[], by simp, by simpa using hafter.symm⟩
      | cons c between =>
        obtain ⟨rfl, -⟩ := List.cons.inj hafter
        simp at hw

/-- Every text is cut at its imports, and these are what is replaced. -/
theorem exists_cut (cs : List Char) : ∃ ps, Cut cs ps ∧
    ∀ replacement, replaceFrom replacement 0 cs = ps.flatMap (Piece.rewritten replacement) := by
  induction cs using scan_induction with
  | nil =>
    refine ⟨[], ⟨rfl, by simp, fun before m after hm heq => ?_⟩, fun _ => rfl⟩
    obtain ⟨w, rfl, -⟩ := hm.exists_tail
    simp at heq
  | imported m rest hm ih =>
    obtain ⟨ps, ⟨htext, hisImport, hall⟩, hreplaced⟩ := ih
    refine ⟨.imported m :: ps, ⟨?_, ?_, fun before m' after hm' heq => ?_⟩, fun replacement => ?_⟩
    · rw [List.flatMap_cons, htext]
      rfl
    · intro m' hmem
      obtain hmem | hmem := List.mem_cons.mp hmem
      · cases hmem
        exact hm
      · exact hisImport m' hmem
    -- an import in the text is this one, or it lies in the rest: imports do not overlap
    · obtain ⟨rfl, rfl⟩ | ⟨between, rfl, hrest⟩ := exists_of_append_eq hm hm' heq
      · exact ⟨[], ps, rfl, rfl⟩
      · obtain ⟨front, back, rfl, rfl⟩ := hall between m' after hm' hrest
        exact ⟨.imported m :: front, back, rfl, List.flatMap_cons ..⟩
    · rw [replaceFrom_imported replacement hm, hreplaced]
      rfl
  | kept c cs hc ih =>
    obtain ⟨ps, ⟨htext, hisImport, hall⟩, hreplaced⟩ := ih
    refine ⟨.kept c :: ps, ⟨?_, ?_, fun before m after hm heq => ?_⟩, fun replacement => ?_⟩
    · rw [List.flatMap_cons, htext]
      rfl
    · intro m hmem
      obtain hmem | hmem := List.mem_cons.mp hmem
      · cases hmem
      · exact hisImport m hmem
    · cases before with
      -- an import that does not start here lies in the rest
      | nil => exact absurd hm (length?_eq_none_iff.mp hc m after heq)
      | cons b before =>
        obtain ⟨rfl, hrest⟩ := List.cons.inj heq
        obtain ⟨front, back, rfl, rfl⟩ := hall before m after hm hrest
        exact ⟨.kept c :: front, back, rfl, List.flatMap_cons ..⟩
    · rw [replaceFrom_kept replacement hc, hreplaced]
      rfl

/-- The library is imported nowhere exactly if no import stands in the text. -/
theorem isFree_iff : isFree cs = true ↔
    ∀ before m after, cs = before ++ m ++ after → ¬ IsImport m := by
  induction cs with
  | nil =>
    refine iff_of_true rfl fun before m after heq hm => ?_
    obtain ⟨w, rfl, -⟩ := hm.exists_tail
    simp at heq
  | cons c cs ih =>
    rw [isFree, Bool.and_eq_true, Option.isNone_iff_eq_none, length?_eq_none_iff, ih]
    constructor
    · rintro ⟨hstart, hrest⟩ before m after heq
      cases before with
      | nil => exact hstart m after heq
      | cons b before => exact hrest before m after (List.cons.inj heq).2
    · intro h
      refine ⟨fun m rest heq => h [] m rest heq, fun before m after heq => ?_⟩
      exact h (c :: before) m after (by rw [heq]; rfl)

/-! ## Where imports can arise -/

/-- Behind a character that is no `f`, imports are those of the rest. -/
theorem isFree_cons (hc : c ≠ 'f') (cs : List Char) : isFree (c :: cs) = isFree cs := by
  rw [isFree, length?_eq_none hc]
  rfl

/-- What stands in front of the first `f` was there before replacing. -/
theorem isPrefix_of_replaceFrom {w : List Char} (hw : 'f' ∉ w)
    (h : w <+: replaceFrom ('f' :: replacement) 0 cs) : w <+: cs := by
  induction cs using scan_induction generalizing w with
  | nil => exact h
  | imported m rest hm ih =>
    rw [replaceFrom_imported _ hm] at h
    -- an import is replaced by a text that starts with the first `f`, so the part is empty
    cases w with
    | nil => exact List.nil_prefix
    | cons c w =>
      obtain ⟨rfl, -⟩ := List.cons_prefix_cons.mp h
      simp at hw
  | kept c cs hc ih =>
    rw [replaceFrom_kept _ hc] at h
    cases w with
    | nil => exact List.nil_prefix
    | cons c' w =>
      obtain ⟨rfl, hrest⟩ := List.cons_prefix_cons.mp h
      have hw' : 'f' ∉ w := fun hmem => hw (List.mem_cons_of_mem _ hmem)
      exact List.cons_prefix_cons.mpr ⟨rfl, ih hw' hrest⟩

/-- If replacements bring no import along, there is none when all are replaced. -/
theorem isFree_replaceFrom
    (hreplacement : ∀ cs, isFree cs = true → isFree ('f' :: replacement ++ cs) = true)
    (cs : List Char) : isFree (replaceFrom ('f' :: replacement) 0 cs) = true := by
  induction cs using scan_induction with
  | nil => rfl
  | imported m rest hm ih =>
    rw [replaceFrom_imported _ hm]
    exact hreplacement _ ih
  | kept c cs hc ih =>
    rw [replaceFrom_kept _ hc, isFree, ih, Bool.and_true, Option.isNone_iff_eq_none,
      length?_eq_none_iff]
    intro m rest heq hm
    -- an import that starts here would have been one before
    obtain ⟨w, rfl, hw⟩ := hm.exists_tail
    obtain ⟨rfl, hout⟩ := List.cons.inj heq
    obtain ⟨rest', rfl⟩ := isPrefix_of_replaceFrom hw ⟨rest, hout.symm⟩
    exact length?_eq_none_iff.mp hc ('f' :: w) rest' rfl hm

end LibraryImport

end Promptwright
