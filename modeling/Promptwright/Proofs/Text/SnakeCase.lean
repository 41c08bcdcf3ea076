import Mathlib.Data.List.Chain
import Promptwright.Proofs.Text.Labels

/-!
# Snake case

A label is spelled with underscores in two ways: between all its words, and between its parts at
white space only.  Either way the words are not empty and hold small letters and digits, so every
underscore stands alone between two of them, and without the underscores both spellings are the
letters of the label.  The words of a part make the part, so where the parts are cut the words are
cut as well.

## Key results

- `isSnakeCase_snakeOf`: words with underscores between them
- `breaksFrom_append`: where the underscores of a text stand
- `breaksFrom_merged`: words that are merged leave fewer of them
- `spellings_agree`: all spellings of a label have the same letters
-/

namespace Promptwright.Identifiers

variable {label w : List Char}

/-! ## Words with underscores between them -/

/-- A text of small letters, digits and underscores.  No underscore stands at an end of the text,
and no two stand side by side. -/
structure IsSnakeCase (cs : List Char) : Prop where
  chars : ∀ c ∈ cs, c.isLower = true ∨ c.isDigit = true ∨ c = '_'
  first : cs.head? ≠ some '_'
  last : cs.getLast? ≠ some '_'
  single : cs.IsChain fun a b => a ≠ '_' ∨ b ≠ '_'

/-- The first word, and what follows it. -/
theorem snakeOf_cons {w : List Char} {ws : List (List Char)} (h : ws ≠ []) :
    snakeOf (w :: ws) = w ++ '_' :: snakeOf ws := by
  cases ws with
  | nil => exact absurd rfl h
  | cons v ws => simp [snakeOf, List.intercalate_cons_cons]

/-- Words in two groups. -/
theorem snakeOf_append {us vs : List (List Char)} (hus : us ≠ []) (hvs : vs ≠ []) :
    snakeOf (us ++ vs) = snakeOf us ++ '_' :: snakeOf vs := by
  induction us with
  | nil => exact absurd rfl hus
  | cons u us ih =>
    by_cases h : us = []
    · subst h
      rw [List.singleton_append, snakeOf_cons hvs]
      simp [snakeOf]
    · rw [List.cons_append, snakeOf_cons (by simp [h]), snakeOf_cons h, ih h]
      simp

/-- A small word is in snake case. -/
theorem IsSmallWord.isSnakeCase (h : IsSmallWord w) : IsSnakeCase w where
  chars c hc := (h.small c hc).elim .inl fun hdigit => .inr (.inl hdigit)
  first hc := h.underscore_not_mem (List.mem_of_head? hc)
  last hc := h.underscore_not_mem (List.mem_of_getLast? hc)
  single := by
    refine List.Pairwise.isChain (List.pairwise_of_forall_mem_list fun a ha b _ => .inl ?_)
    exact fun e => h.underscore_not_mem (e ▸ ha)

/-- Two texts in snake case, with an underscore between them. -/
theorem IsSnakeCase.append {cs ds : List Char} (h : IsSnakeCase cs) (h' : IsSnakeCase ds)
    (hcs : cs ≠ []) (hds : ds ≠ []) : IsSnakeCase (cs ++ '_' :: ds) where
  chars c hc := by
    simp only [List.mem_append, List.mem_cons] at hc
    obtain hc | rfl | hc := hc
    · exact h.chars c hc
    · exact .inr (.inr rfl)
    · exact h'.chars c hc
  first := by
    rw [List.head?_append_of_ne_nil _ hcs]
    exact h.first
  last := by
    rw [List.getLast?_append_of_ne_nil _ (by simp), List.getLast?_cons_of_ne_nil hds]
    exact h'.last
  single := by
    -- the new underscore has another character on both sides
    refine List.isChain_append.mpr ⟨h.single, ?_, fun a ha _ _ => .inl ?_⟩
    · refine List.isChain_cons.mpr ⟨fun b hb => .inr ?_, h'.single⟩
      rintro rfl
      exact h'.first hb
    · rintro rfl
      exact h.last ha

/-- Small words with underscores between them are in snake case. -/
theorem isSnakeCase_snakeOf {ws : List (List Char)} (h : ∀ w ∈ ws, IsSmallWord w) :
    IsSnakeCase (snakeOf ws) := by
  induction ws with
  | nil => exact ⟨by simp [snakeOf], by simp [snakeOf], by simp [snakeOf], by simp [snakeOf]⟩
  | cons w ws ih =>
    obtain ⟨hw, hws⟩ := List.forall_mem_cons.mp h
    by_cases hnil : ws = []
    · subst hnil
      simpa [snakeOf] using hw.isSnakeCase
    · -- what follows the word starts with another one
      have hne : snakeOf ws ≠ [] := by
        obtain ⟨v, vs, rfl⟩ := List.exists_cons_of_ne_nil hnil
        have hv := (hws v List.mem_cons_self).ne_nil
        by_cases hvs : vs = []
        · subst hvs
          simpa [snakeOf] using hv
        · simp [snakeOf_cons hvs]
      rw [snakeOf_cons hnil]
      exact hw.isSnakeCase.append (ih hws) hw.ne_nil hne

/-! ## Breaks -/

/-- The places of the underscores in a text: how many other characters stand in front of each, from
a given number on. -/
def breaksFrom (n : Nat) : List Char → List Nat
  | [] => []
  | c :: cs => if c = '_' then n :: breaksFrom n cs else breaksFrom (n + 1) cs

/-- The places where a text in snake case goes on with another word, counted in letters. -/
def wordBreaks (cs : List Char) : List Nat := breaksFrom 0 cs

example : wordBreaks "look_up_4k".toList = [4, 6] := by decide

/-- Behind a text, its letters have been counted. -/
theorem breaksFrom_append (n : Nat) (cs ds : List Char) :
    breaksFrom n (cs ++ ds) =
      breaksFrom n cs ++ breaksFrom (n + (cs.filter (· != '_')).length) ds := by
  induction cs generalizing n with
  | nil => rfl
  | cons c cs ih =>
    by_cases hc : c = '_'
    · simp [breaksFrom, hc, ih]
    · simp only [List.cons_append, breaksFrom, hc, ↓reduceIte, ih]
      have hlength : (List.filter (· != '_') (c :: cs)).length =
          (List.filter (· != '_') cs).length + 1 := by simp [hc]
      rw [hlength, Nat.add_assoc, Nat.add_comm 1]

/-- A text without underscores has no breaks. -/
theorem breaksFrom_of_not_mem {cs : List Char} (h : '_' ∉ cs) (n : Nat) : breaksFrom n cs = [] := by
  induction cs generalizing n with
  | nil => rfl
  | cons c cs ih =>
    simp only [List.mem_cons, not_or] at h
    rw [breaksFrom, if_neg (Ne.symm h.1), ih h.2]

/-- Merging the words of each group leaves only breaks that were there. -/
theorem breaksFrom_merged {gs : List (List (List Char))} (hgs : ∀ g ∈ gs, g ≠ [])
    (hws : ∀ g ∈ gs, ∀ w ∈ g, '_' ∉ w) (n : Nat) :
    breaksFrom n (snakeOf (gs.map List.flatten)) ⊆ breaksFrom n (snakeOf gs.flatten) := by
  induction gs generalizing n with
  | nil => simp [snakeOf]
  | cons g gs ih =>
    obtain ⟨hg, hgs⟩ := List.forall_mem_cons.mp hgs
    obtain ⟨hwords, hws⟩ := List.forall_mem_cons.mp hws
    have hletters : (snakeOf g).filter (· != '_') = g.flatten := filter_snakeOf hwords
    -- a merged group has no break
    have hmerged : g.flatten.filter (· != '_') = g.flatten := by
      rw [← hletters, List.filter_filter]
      simp
    have hnone : ∀ n, breaksFrom n g.flatten = [] := fun n =>
      breaksFrom_of_not_mem (by simpa using hwords) n
    by_cases hnil : gs = []
    · subst hnil
      simp [snakeOf, hnone]
    · have hrest : gs.flatten ≠ [] := by
        obtain ⟨g', gs', rfl⟩ := List.exists_cons_of_ne_nil hnil
        simp [(List.forall_mem_cons.mp hgs).1]
      rw [List.map_cons, snakeOf_cons (by simpa using hnil), List.flatten_cons,
        snakeOf_append hg hrest, breaksFrom_append, breaksFrom_append, hletters, hmerged, hnone]
      -- the break behind the group, and those in what follows
      refine List.Subset.trans ?_ (List.subset_append_right _ _)
      exact List.cons_subset_cons _ (ih hgs hws _)

/-- The words of a label are the words of its parts, and together they make the parts. -/
theorem exists_groups (label : List Char) : ∃ gs : List (List (List Char)),
    (∀ g ∈ gs, g ≠ []) ∧ gs.map List.flatten = (chunks label).map lower ∧
      gs.flatten = words label := by
  refine ⟨(chunks label).map fun chunk => (humps chunk).map lower, ?_, ?_, ?_⟩
  · intro g hg
    obtain ⟨chunk, hchunk, rfl⟩ := List.mem_map.mp hg
    -- a part without words would be empty
    intro hnil
    have hhumps := flatten_humps chunk
    rw [List.map_eq_nil_iff.mp hnil] at hhumps
    exact (of_mem_chunks hchunk).1 hhumps.symm
  · rw [List.map_map]
    refine List.map_congr_left fun chunk _ => ?_
    show ((humps chunk).map (List.map Char.toLower)).flatten = lower chunk
    rw [← List.map_flatten, flatten_humps]
    rfl
  · rw [words, List.map_flatMap]
    rfl

/-- Where the file slug of a label goes on with another word, its spelling in snake case does. -/
theorem wordBreaks_fileSlug_subset (label : String) :
    wordBreaks (ofLabel label).fileSlug.toList ⊆ wordBreaks (ofLabel label).snake.toList := by
  obtain ⟨gs, hgs, hslug, hwords⟩ := exists_groups label.toList
  simp only [ofLabel, String.toList_ofList, ← hslug, ← hwords]
  refine breaksFrom_merged hgs (fun g hg w hw => ?_) 0
  have hmem : w ∈ words label.toList := hwords ▸ List.mem_flatten.mpr ⟨g, hg, hw⟩
  exact (isSmallWord_of_mem_words hmem).underscore_not_mem

/-! ## Letters of all spellings -/

/-- In snake case a label is spelled with its letters in lower case. -/
theorem filter_snake (label : String) :
    (ofLabel label).snake.toList.filter (· != '_') = lower (letters label.toList) := by
  rw [ofLabel, String.toList_ofList,
    filter_snakeOf fun w hw => (isSmallWord_of_mem_words hw).underscore_not_mem, flatten_wordsOf]

/-- A capital at the start makes no other letters. -/
theorem lower_pascal (label : String) :
    lower (ofLabel label).pascal.toList = lower (letters label.toList) := by
  rw [← lower_camel, ofLabel, String.toList_ofList, String.toList_ofList, lower_upperFirst]

/-- A text in snake case that has no letters is empty. -/
theorem IsSnakeCase.eq_nil {cs : List Char} (h : IsSnakeCase cs)
    (hnone : cs.filter (· != '_') = []) : cs = [] := by
  by_contra hne
  obtain ⟨c, cs, rfl⟩ := List.exists_cons_of_ne_nil hne
  have hc : c = '_' := by simpa using List.filter_eq_nil_iff.mp hnone c List.mem_cons_self
  exact h.first (by rw [hc]; rfl)

/-- A text that has the letters of a label in lower case is empty if there are none. -/
theorem eq_nil_iff_of_lower_eq {cs : List Char} (h : lower cs = lower (letters label)) :
    cs = [] ↔ letters label = [] := by
  simp only [lower] at h
  rw [← List.map_eq_nil_iff (f := Char.toLower), h, List.map_eq_nil_iff]

/-- A text in snake case that has them between its underscores is empty then as well. -/
theorem IsSnakeCase.eq_nil_iff {cs : List Char} (h : IsSnakeCase cs)
    (hletters : cs.filter (· != '_') = lower (letters label)) : cs = [] ↔ letters label = [] := by
  constructor
  · rintro rfl
    simpa [lower] using hletters.symm
  · intro hnone
    exact h.eq_nil (by rw [hletters, hnone]; rfl)

/-- All spellings of a label have the same letters: the ASCII letters and digits of the label, in
their order and up to case.  Camel and Pascal case hold nothing else.  Snake case and the file slug
are in lower case and hold single underscores besides, between other characters only.  Where the file
slug goes on with another word, snake case does too.  The spellings of a label are empty if it has no
letters, and only then. -/
theorem spellings_agree (label : String) :
    (∀ c ∈ (ofLabel label).camel.toList, c.isAlphanum = true) ∧
    (∀ c ∈ (ofLabel label).pascal.toList, c.isAlphanum = true) ∧
    IsSnakeCase (ofLabel label).snake.toList ∧
    IsSnakeCase (ofLabel label).fileSlug.toList ∧
    lower (ofLabel label).camel.toList = lower (letters label.toList) ∧
    lower (ofLabel label).pascal.toList = lower (letters label.toList) ∧
    (ofLabel label).snake.toList.filter (· != '_') = lower (letters label.toList) ∧
    (ofLabel label).fileSlug.toList.filter (· != '_') = lower (letters label.toList) ∧
    wordBreaks (ofLabel label).fileSlug.toList ⊆ wordBreaks (ofLabel label).snake.toList ∧
    ((ofLabel label).camel = "" ↔ letters label.toList = []) ∧
    ((ofLabel label).pascal = "" ↔ letters label.toList = []) ∧
    ((ofLabel label).snake = "" ↔ letters label.toList = []) ∧
    ((ofLabel label).fileSlug = "" ↔ letters label.toList = []) := by
  have hcamel : ∀ c ∈ (ofLabel label).camel.toList, c.isAlphanum = true :=
    fun _ hc => Script.isAlphanum_of_mem_camel hc
  have hpascal : ∀ c ∈ (ofLabel label).pascal.toList, c.isAlphanum = true := by
    have hupper := Script.forall_mem_upperFirst (P := (Char.isAlphanum · = true))
      (fun _ => Script.isAlphanum_toUpper) hcamel
    simpa [ofLabel] using hupper
  have hsnake : IsSnakeCase (ofLabel label).snake.toList := by
    rw [ofLabel, String.toList_ofList]
    exact isSnakeCase_snakeOf fun w hw => isSmallWord_of_mem_words hw
  have hslug : IsSnakeCase (ofLabel label).fileSlug.toList := by
    rw [ofLabel, String.toList_ofList]
    exact isSnakeCase_snakeOf fun w hw => isSmallWord_of_mem_slug hw
  -- which spellings are empty can be seen from their characters
  have hempty : ∀ s : String, s = "" ↔ s.toList = [] := fun s => by
    rw [← String.toList_inj]
    rfl
  refine ⟨hcamel, hpascal, hsnake, hslug, lower_camel label, lower_pascal label,
    filter_snake label, filter_fileSlug label, wordBreaks_fileSlug_subset label, ?_, ?_, ?_, ?_⟩
  · exact (hempty _).trans (eq_nil_iff_of_lower_eq (lower_camel label))
  · exact (hempty _).trans (eq_nil_iff_of_lower_eq (lower_pascal label))
  · exact (hempty _).trans (hsnake.eq_nil_iff (filter_snake label))
  · exact (hempty _).trans (hslug.eq_nil_iff (filter_fileSlug label))

/-- A label with humps, a capital next to others, a wide space and a mark. -/
def servedLabel : String := "look-upWeather HTTPServer\u2003v2!"

/-- This label has five words, which stand in three parts. -/
theorem spellings_agree_served :
    ofLabel servedLabel = ⟨"lookupWeatherHttpServerV2", "LookupWeatherHttpServerV2",
      "lookup_weather_http_server_v2", "lookupweather_httpserver_v2"⟩ ∧
    ('H' ∈ (ofLabel servedLabel).camel.toList ∧ 'H'.isAlphanum = true) ∧
    ('L' ∈ (ofLabel servedLabel).pascal.toList ∧ 'L'.isAlphanum = true) ∧
    lower (ofLabel servedLabel).pascal.toList = lower (letters servedLabel.toList) ∧
    wordBreaks (ofLabel servedLabel).fileSlug.toList = [13, 23] ∧
    wordBreaks (ofLabel servedLabel).fileSlug.toList ⊆
      wordBreaks (ofLabel servedLabel).snake.toList := by
  obtain ⟨hcamel, hpascal, -, -, -, hletters, -, -, hbreaks, -⟩ := spellings_agree servedLabel
  have hH : 'H' ∈ (ofLabel servedLabel).camel.toList := by decide
  have hL : 'L' ∈ (ofLabel servedLabel).pascal.toList := by decide
  exact ⟨by decide, ⟨hH, hcamel _ hH⟩, ⟨hL, hpascal _ hL⟩, hletters, by decide, hbreaks⟩

end Promptwright.Identifiers
