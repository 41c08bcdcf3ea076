import Mathlib.Data.List.TakeWhile
import Promptwright.Script.Format

/-!
# Trimming and lines

`trim` takes off exactly the white space at the two ends, and a text of lines that end
in line feeds is read back into those lines.

## Key results

- `trim_spaces_append`: spaces in front of a line that has no white space at its ends go away
- `eq_trimEnd_append`: what `trimEnd` takes off is white space
- `lines_unlines`: lines without line ends of their own are read back
- `newline_not_mem_lines`: the lines of a text hold no line feed
- `line_induction`: induction over the lines of a text
- `exists_lines_eq`: a line loses at most a carriage return at its end
-/

namespace Promptwright.Text

/-! ## White space at the ends -/

/-- A text is tight if it is not empty and has no white space at either end. -/
structure Tight (s : List Char) : Prop where
  ne_nil : s ≠ []
  head : ∀ c, s.head? = some c → isBlank c = false
  last : ∀ c, s.getLast? = some c → isBlank c = false

/-- Dropping a leading run stops at the first element outside of it. -/
theorem dropWhile_eq_self_of_head {α : Type} {p : α → Bool} {s : List α}
    (h : ∀ c, s.head? = some c → p c = false) : s.dropWhile p = s := by
  cases s with
  | nil => rfl
  | cons c cs => rw [List.dropWhile_cons_of_neg (by rw [h c rfl]; decide)]

/-- A run is taken off up to the first element outside of it. -/
theorem span_append {α : Type} {p : α → Bool} {xs rest : List α} (hxs : ∀ x ∈ xs, p x = true)
    (hrest : ∀ x, rest.head? = some x → p x = false) :
    (xs ++ rest).takeWhile p = xs ∧ (xs ++ rest).dropWhile p = rest := by
  have hdrop : (xs ++ rest).dropWhile p = rest := by
    rw [List.dropWhile_append_of_pos hxs, dropWhile_eq_self_of_head hrest]
  refine ⟨?_, hdrop⟩
  have hsplit := List.takeWhile_append_dropWhile (p := p) (l := xs ++ rest)
  rw [hdrop] at hsplit
  exact List.append_cancel_right hsplit

/-- Runs that end at elements outside of them end at the same place. -/
theorem append_inj_of_span {α : Type} {p : α → Bool} {xs ys r s : List α}
    (hxs : ∀ x ∈ xs, p x = true) (hys : ∀ y ∈ ys, p y = true)
    (hr : ∀ x, r.head? = some x → p x = false) (hs : ∀ x, s.head? = some x → p x = false)
    (h : xs ++ r = ys ++ s) : xs = ys ∧ r = s := by
  obtain ⟨htake, hdrop⟩ := span_append hxs hr
  obtain ⟨htake', hdrop'⟩ := span_append hys hs
  exact ⟨by rw [← htake, h, htake'], by rw [← hdrop, h, hdrop']⟩

attribute [local simp] trimEnd in
/-- `trimEnd` keeps a text whose last character is not white space. -/
theorem trimEnd_eq_self {s : List Char} (h : ∀ c, s.getLast? = some c → isBlank c = false) :
    trimEnd s = s := by
  have hhead : ∀ c, s.reverse.head? = some c → isBlank c = false := by
    intro c hc
    rw [List.head?_reverse] at hc
    exact h c hc
  simp [dropWhile_eq_self_of_head hhead]

/-- The last character that `trimEnd` leaves is not white space. -/
theorem isBlank_getLast?_trimEnd (s : List Char) (c : Char)
    (h : (trimEnd s).getLast? = some c) : isBlank c = false := by
  rw [trimEnd, List.getLast?_reverse] at h
  have := List.head?_dropWhile_not isBlank s.reverse
  rw [h] at this
  simpa using this

/-- What `trimEnd` takes off is white space. -/
theorem eq_trimEnd_append (s : List Char) :
    ∃ ws, s = trimEnd s ++ ws ∧ ∀ c ∈ ws, isBlank c = true := by
  refine ⟨(s.reverse.takeWhile isBlank).reverse, ?_, ?_⟩
  · rw [trimEnd, ← List.reverse_append, List.takeWhile_append_dropWhile, List.reverse_reverse]
  · intro c hc
    rw [List.mem_reverse] at hc
    exact List.all_eq_true.mp List.all_takeWhile c hc

/-- Trimming the end twice is trimming it once. -/
@[simp] theorem trimEnd_trimEnd (s : List Char) : trimEnd (trimEnd s) = trimEnd s :=
  trimEnd_eq_self (isBlank_getLast?_trimEnd s)

/-- `trimEnd` only takes characters away. -/
theorem mem_of_mem_trimEnd {s : List Char} {c : Char} (h : c ∈ trimEnd s) : c ∈ s := by
  obtain ⟨ws, hs, -⟩ := eq_trimEnd_append s
  rw [hs]
  exact List.mem_append_left ws h

/-- `trim` only takes characters away. -/
theorem mem_of_mem_trim {s : List Char} {c : Char} (h : c ∈ trim s) : c ∈ s :=
  (List.dropWhile_sublist isBlank).subset (mem_of_mem_trimEnd h)

/-- The first character that `trimEnd` leaves is the first character. -/
theorem head?_trimEnd {s : List Char} {c : Char} (h : (trimEnd s).head? = some c) :
    s.head? = some c := by
  obtain ⟨ws, hs, -⟩ := eq_trimEnd_append s
  rw [hs, List.head?_append, h]
  rfl

/-- A trimmed text that is not empty is tight. -/
theorem tight_trim {s : List Char} (h : trim s ≠ []) : Tight (trim s) := by
  refine ⟨h, ?_, isBlank_getLast?_trimEnd _⟩
  intro c hc
  -- `trimEnd` keeps the first character, so it is the one that `trimStart` stopped at
  have hd := List.head?_dropWhile_not isBlank s
  rw [← trimStart, head?_trimEnd hc] at hd
  simpa using hd

/-- Spaces in front of a text that does not start with white space go away. -/
theorem trimStart_spaces_append {s : List Char} (h : ∀ c, s.head? = some c → isBlank c = false)
    (n : Nat) : trimStart (List.replicate n ' ' ++ s) = s := by
  -- the spaces go one by one, and then `s` stops it
  rw [trimStart, List.dropWhile_append_of_pos]
  · exact dropWhile_eq_self_of_head h
  · intro c hc
    rw [List.eq_of_mem_replicate hc]
    decide

/-- A tight text is left as it is, and spaces in front of it go away. -/
theorem trim_spaces_append {s : List Char} (h : Tight s) (n : Nat) :
    trim (List.replicate n ' ' ++ s) = s := by
  rw [trim, trimStart_spaces_append h.head, trimEnd_eq_self h.last]

/-! ## Lines -/

/-- A line that can be written: it holds no line feed and no carriage return that would join
the line feed after it. -/
structure IsLine (s : List Char) : Prop where
  newline_not_mem : '\n' ∉ s
  last_ne_return : s.getLast? ≠ some '\r'

/-- The empty line can be written. -/
theorem isLine_nil : IsLine [] := ⟨by simp, by simp⟩

/-- A line that does not end in white space can be written. -/
theorem isLine_of_last {s : List Char} (hmem : '\n' ∉ s)
    (h : ∀ c, s.getLast? = some c → isBlank c = false) : IsLine s := by
  refine ⟨hmem, fun hc => ?_⟩
  have := h _ hc
  revert this
  decide

/-- The rest of a line can be written. -/
theorem IsLine.tail {c d : Char} {s : List Char} (h : IsLine (c :: d :: s)) :
    IsLine (d :: s) := by
  refine ⟨fun hd => h.newline_not_mem (List.mem_cons_of_mem c hd), ?_⟩
  have := h.last_ne_return
  rwa [List.getLast?_cons_cons] at this

/-- Reading goes on behind a character that ends no line. -/
theorem lines_cons {c : Char} {cs : List Char} (hn : c ≠ '\n')
    (hr : c = '\r' → cs.head? ≠ some '\n') : lines (c :: cs) = consHead c (lines cs) := by
  rw [lines]
  · exact hn
  · rintro cs' rfl rfl
    exact hr rfl rfl

/-- The first line of a text is read up to its end. -/
theorem lines_append {l : List Char} (h : IsLine l) (s : List Char) :
    lines (l ++ '\n' :: s) = l :: lines s := by
  induction l with
  | nil => rfl
  | cons c cs ih =>
    have hn : c ≠ '\n' := fun e => h.newline_not_mem (e ▸ List.mem_cons_self)
    cases cs with
    | nil =>
      -- the last character of the line: a return here would join the line feed
      have hr : c ≠ '\r' := fun e => h.last_ne_return (by rw [e]; rfl)
      rw [List.cons_append, lines_cons hn (fun e => absurd e hr), List.nil_append, lines]
      rfl
    | cons d ds =>
      -- `d` is in the line too, so a return before it ends nothing
      have hd : d ≠ '\n' := fun e => h.newline_not_mem (by simp [e])
      rw [List.cons_append, lines_cons hn, ih h.tail]
      · rfl
      · rintro -
        simpa using hd

/-- Lines are read back from the text that holds them. -/
theorem lines_unlines {ls : List (List Char)} (h : ∀ l ∈ ls, IsLine l) :
    lines (Script.unlines ls) = ls := by
  induction ls with
  | nil => rfl
  | cons l ls ih =>
    have hl : IsLine l := h l List.mem_cons_self
    have hls : ∀ l ∈ ls, IsLine l := fun l' hl' => h l' (List.mem_cons_of_mem l hl')
    rw [Script.unlines, List.flatMap_cons, List.append_assoc, List.singleton_append,
      lines_append hl, ← Script.unlines, ih hls]

/-- Pieces hold no line feed if a character other than it is put in front of them. -/
theorem newline_not_mem_consHead {c : Char} (hc : c ≠ '\n') {ls : List (List Char)}
    (h : ∀ l ∈ ls, '\n' ∉ l) : ∀ l ∈ consHead c ls, '\n' ∉ l := by
  cases ls with
  | nil => simpa [consHead] using hc.symm
  | cons w ws =>
    intro l hl
    rcases List.mem_cons.mp hl with rfl | hl
    · simpa [hc.symm] using h w List.mem_cons_self
    · exact h l (List.mem_cons_of_mem w hl)

/-- The lines of a text hold no line feed. -/
theorem newline_not_mem_lines (s : List Char) : ∀ l ∈ lines s, '\n' ∉ l := by
  fun_induction lines s with
  | case1 => simp
  | case2 cs ih => simpa using ih
  | case3 cs ih => simpa using ih
  | case4 c cs hn hr ih => exact newline_not_mem_consHead hn ih

/-! ## Texts, line by line -/

/-- Induction over the lines of a text: the last one may have no end. -/
@[elab_as_elim]
theorem line_induction {P : List Char → Prop} (nil : P [])
    (last : ∀ l, l ≠ [] → '\n' ∉ l → P l)
    (line : ∀ l s, '\n' ∉ l → P s → P (l ++ '\n' :: s)) (s : List Char) : P s := by
  -- a line feed ends a line, whatever stands before it on that line
  suffices h : ∀ l, '\n' ∉ l → P (l ++ s) by simpa using h [] (by simp)
  induction s with
  | nil =>
    intro l hl
    rw [List.append_nil]
    by_cases h : l = []
    · exact h ▸ nil
    · exact last l h hl
  | cons c s ih =>
    intro l hl
    by_cases hc : c = '\n'
    · subst hc
      exact line l s hl (by simpa using ih [] (by simp))
    · have h := ih (l ++ [c]) (by simp [hl, Ne.symm hc])
      simpa using h

/-- A text without line feeds is one line. -/
theorem lines_last {l : List Char} (hl : '\n' ∉ l) (hne : l ≠ []) : lines l = [l] := by
  induction l with
  | nil => exact absurd rfl hne
  | cons c cs ih =>
    simp only [List.mem_cons, not_or] at hl
    have hr : cs.head? ≠ some '\n' := fun h => hl.2 (List.mem_of_mem_head? h)
    rw [lines_cons (Ne.symm hl.1) fun _ => hr]
    cases cs with
    | nil => rfl
    | cons d ds => rw [ih hl.2 (by simp)]; rfl

/-- A carriage return before a line feed ends a line with it. -/
theorem lines_append_return {l : List Char} (hl : '\n' ∉ l) (s : List Char) :
    lines (l ++ '\r' :: '\n' :: s) = l :: lines s := by
  induction l with
  | nil => rfl
  | cons c cs ih =>
    simp only [List.mem_cons, not_or] at hl
    have hr : (cs ++ '\r' :: '\n' :: s).head? ≠ some '\n' := by
      cases cs with
      | nil => simp
      | cons d ds => simpa using fun e : d = '\n' => hl.2 (e ▸ List.mem_cons_self)
    rw [List.cons_append, lines_cons (Ne.symm hl.1) fun _ => hr, ih hl.2]
    rfl

/-- A line that is read loses at most a carriage return at its end. -/
theorem exists_lines_eq {l : List Char} (hl : '\n' ∉ l) (s : List Char) :
    ∃ l', lines (l ++ '\n' :: s) = l' :: lines s ∧ (l = l' ∨ l = l' ++ ['\r']) := by
  by_cases h : l.getLast? = some '\r'
  · obtain ⟨l', rfl⟩ := List.getLast?_eq_some_iff.mp h
    have hl' : '\n' ∉ l' := fun hc => hl (List.mem_append_left _ hc)
    refine ⟨l', ?_, .inr rfl⟩
    rw [List.append_assoc]
    exact lines_append_return hl' s
  · exact ⟨l, lines_append ⟨hl, h⟩ s, .inl rfl⟩

/-- White space behind a text is taken off with that at its end. -/
theorem trimEnd_append_blank (s : List Char) {ws : List Char}
    (hws : ∀ c ∈ ws, isBlank c = true) : trimEnd (s ++ ws) = trimEnd s := by
  rw [trimEnd, trimEnd, List.reverse_append, List.dropWhile_append_of_pos]
  intro c hc
  exact hws c (List.mem_reverse.mp hc)

/-- White space behind a text is trimmed. -/
theorem trim_append_blank (s : List Char) {ws : List Char} (hws : ∀ c ∈ ws, isBlank c = true) :
    trim (s ++ ws) = trim s := by
  rw [trim, trim, trimStart, trimStart, List.dropWhile_append]
  split
  · next h =>
    -- nothing else is there
    have hs : s.dropWhile isBlank = [] := by simpa using h
    rw [hs, List.dropWhile_eq_nil_iff.mpr hws]
  · exact trimEnd_append_blank _ hws

/-- What `trim` takes off is white space. -/
theorem exists_eq_trim (s : List Char) :
    ∃ pre post, s = pre ++ trim s ++ post ∧ (∀ c ∈ pre, isBlank c = true) ∧
      ∀ c ∈ post, isBlank c = true := by
  obtain ⟨post, hpost, hblank⟩ := eq_trimEnd_append (trimStart s)
  refine ⟨s.takeWhile isBlank, post, ?_, ?_, hblank⟩
  · rw [trim, List.append_assoc, ← hpost, trimStart, List.takeWhile_append_dropWhile]
  · exact fun c hc => List.all_eq_true.mp List.all_takeWhile c hc

/-- Nothing is left of a text of white space, and of no other text. -/
theorem trim_eq_nil_iff {s : List Char} : trim s = [] ↔ ∀ c ∈ s, isBlank c = true := by
  constructor
  · intro h c hc
    obtain ⟨pre, post, hs, hpre, hpost⟩ := exists_eq_trim s
    rw [h, List.append_nil] at hs
    rw [hs] at hc
    exact (List.mem_append.mp hc).elim (hpre c) (hpost c)
  · intro h
    by_contra hne
    have hhead := (tight_trim hne).head _ (List.head?_eq_some_head hne)
    rw [h _ (mem_of_mem_trim (List.head_mem hne))] at hhead
    cases hhead

end Promptwright.Text
