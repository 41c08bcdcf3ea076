import Promptwright.Proofs.Script.CodeText

/-!
# What the spellings of a label have in common

Nothing of a label is kept in its spellings but its ASCII letters and digits, in their order: the
spelling in camel case has them with other capitals, and the file slug has them in lower case with
underscores in between.  So labels with the same spelling in camel case have file slugs that differ
in underscores only, and a spelling starts with a digit if the first letter or digit of its label is
one.

## Key results

- `lower_camel`, `filter_fileSlug`: camel case and file slugs, up to case and underscores
- `mem_fileSlug`: the characters of file slugs
- `isSmallWord_of_mem_words`, `isSmallWord_of_mem_slug`: what stands between underscores
- `filter_fileSlug_of_camel_eq`: labels with the same spelling in camel case
- `any_head?_camel`: what the spelling in camel case starts with
-/

namespace Promptwright.Identifiers

/-! ## Letters -/

/-- The ASCII letters and digits of a text. -/
def letters (cs : List Char) : List Char := cs.filter Char.isAlphanum

/-- Letters and digits are ASCII, so there are few characters to look at. -/
theorem of_isAlphanum {P : Char → Prop}
    (hall : ∀ n : Fin 128, (Char.ofNat n).isAlphanum = true → P (Char.ofNat n)) {c : Char}
    (h : c.isAlphanum = true) : P c := by
  have hc := hall ⟨c.toNat, Script.toNat_lt_of_isAlphanum h⟩
  simp only [Char.ofNat_toNat] at hc
  exact hc h

/-- A letter or digit is not white space, and changing its case leaves a digit a digit. -/
theorem isAlphanum_cases {c : Char} (h : c.isAlphanum = true) :
    Text.isBlank c = false ∧ c.toLower.toLower = c.toLower ∧ c.toUpper.toLower = c.toLower ∧
      c.toLower.isDigit = c.isDigit ∧ c.toUpper.isDigit = c.isDigit := by
  revert c
  apply of_isAlphanum
  decide

/-- In lower case, a letter is one of the alphabet's small ones. -/
theorem isLower_or_isDigit_toLower {c : Char} (h : c.isAlphanum = true) :
    c.toLower.isLower = true ∨ c.toLower.isDigit = true := by
  revert c
  apply of_isAlphanum
  decide

/-- Replacing characters that are no letters by others of that kind keeps the letters. -/
theorem letters_map {f : Char → Char}
    (hf : ∀ c, f c = c ∨ c.isAlphanum = false ∧ (f c).isAlphanum = false) (cs : List Char) :
    letters (cs.map f) = letters cs := by
  induction cs with
  | nil => rfl
  | cons c cs ih =>
    rw [letters, letters] at ih
    rw [letters, letters, List.map_cons]
    obtain hc | ⟨hc, hfc⟩ := hf c
    · rw [hc, List.filter_cons, List.filter_cons, ih]
    · rw [List.filter_cons_of_neg (by simp [hfc]), List.filter_cons_of_neg (by simp [hc]), ih]

/-- Dashes and underscores are no letters, and neither are spaces. -/
theorem letters_dashesToSpaces (cs : List Char) : letters (dashesToSpaces cs) = letters cs := by
  apply letters_map
  intro c
  split
  next h =>
    obtain rfl | rfl := h
    · exact .inr (by decide)
    · exact .inr (by decide)
  next => exact .inl rfl

/-! ## Words -/

/-- A character in front of some pieces is in front of the text they make. -/
theorem flatten_consHead (c : Char) (ws : List (List Char)) :
    (Text.consHead c ws).flatten = c :: ws.flatten := by
  cases ws <;> rfl

/-- The words of a text hold all that is not white space. -/
theorem flatten_words (cs : List Char) :
    (Text.words cs).flatten = cs.filter fun c => !Text.isBlank c := by
  induction cs using Text.words.induct with
  | case1 => rfl
  | case2 c hc => simp [Text.words, hc]
  | case3 c hc => simp [Text.words, hc]
  | case4 c d cs hc ih =>
    rw [Text.words, if_pos hc, ih]
    simp [List.filter_cons, hc]
  | case5 c d cs hc hd ih =>
    rw [Text.words, if_neg hc, if_pos hd, List.flatten_cons, ih]
    simp [List.filter_cons, hc]
  | case6 c d cs hc hd ih =>
    rw [Text.words, if_neg hc, if_neg hd, flatten_consHead, ih]
    simp [List.filter_cons, hc]

/-- The humps of a word make the word. -/
theorem flatten_humps (cs : List Char) : (humps cs).flatten = cs := by
  induction cs using humps.induct with
  | case1 => rfl
  | case2 c => rfl
  | case3 b c cs h ih =>
    rw [humps, if_pos h, List.flatten_cons, ih]
    rfl
  | case4 b c cs h ih => rw [humps, if_neg h, flatten_consHead, ih]

/-- The parts of a label between white space hold its letters. -/
theorem flatten_chunks (label : List Char) : (chunks label).flatten = letters label := by
  rw [chunks, flatten_words, keep, List.filter_filter, letters]
  apply List.filter_congr
  intro c _
  cases hc : c.isAlphanum with
  | true => simp [(isAlphanum_cases hc).1]
  | false => simp

/-- Its words hold them in lower case. -/
theorem flatten_wordsOf (label : List Char) : (words label).flatten = lower (letters label) := by
  have hhumps : ((chunks label).flatMap humps).flatten = (chunks label).flatten := by
    generalize chunks label = ws
    induction ws with
    | nil => rfl
    | cons w ws ih =>
      rw [List.flatMap_cons, List.flatten_append, flatten_humps, ih, List.flatten_cons]
  have hlower : lower = List.map Char.toLower := rfl
  rw [words, hlower, ← List.map_flatten, hhumps, flatten_chunks]

/-! ## Small words -/

/-- A word of small letters and digits. -/
structure IsSmallWord (w : List Char) : Prop where
  ne_nil : w ≠ []
  small : ∀ c ∈ w, c.isLower = true ∨ c.isDigit = true

/-- A small letter or a digit is one of the characters that count, and no underscore. -/
theorem isAlphanum_of_small {c : Char} (h : c.isLower = true ∨ c.isDigit = true) :
    c.isAlphanum = true ∧ c ≠ '_' := by
  refine ⟨?_, ?_⟩
  · show ((c.isUpper || c.isLower) || c.isDigit) = true
    obtain h | h := h <;> simp [h]
  · rintro rfl
    revert h
    decide

/-- There is no underscore in a small word. -/
theorem IsSmallWord.underscore_not_mem {w : List Char} (h : IsSmallWord w) : '_' ∉ w :=
  fun hmem => (isAlphanum_of_small (h.small _ hmem)).2 rfl

/-- A word of letters and digits in lower case is a small word. -/
theorem isSmallWord_lower {w : List Char} (hne : w ≠ []) (h : ∀ c ∈ w, c.isAlphanum = true) :
    IsSmallWord (lower w) := by
  refine ⟨by simpa [lower] using hne, fun c hc => ?_⟩
  obtain ⟨b, hb, rfl⟩ := List.mem_map.mp hc
  exact isLower_or_isDigit_toLower (h b hb)

/-- A character in front of the first piece leaves no piece empty. -/
theorem ne_nil_of_mem_consHead {c : Char} {ws : List (List Char)} (h : ∀ w ∈ ws, w ≠ []) :
    ∀ w ∈ Text.consHead c ws, w ≠ [] := by
  cases ws with
  | nil => simp [Text.consHead]
  | cons v vs =>
    simp only [Text.consHead, List.mem_cons]
    rintro w (rfl | hw)
    · simp
    · exact h w (List.mem_cons_of_mem _ hw)

/-- No word of a text is empty. -/
theorem ne_nil_of_mem_textWords (cs : List Char) : ∀ w ∈ Text.words cs, w ≠ [] := by
  induction cs using Text.words.induct with
  | case1 => simp [Text.words]
  | case2 c hc => simp [Text.words, hc]
  | case3 c hc => simp [Text.words, hc]
  | case4 c d cs hc ih => rwa [Text.words, if_pos hc]
  | case5 c d cs hc hd ih =>
    rw [Text.words, if_neg hc, if_pos hd]
    simpa using ih
  | case6 c d cs hc hd ih =>
    rw [Text.words, if_neg hc, if_neg hd]
    exact ne_nil_of_mem_consHead ih

/-- No hump of a word is empty. -/
theorem ne_nil_of_mem_humps (cs : List Char) : ∀ w ∈ humps cs, w ≠ [] := by
  induction cs using humps.induct with
  | case1 => simp [humps]
  | case2 c => simp [humps]
  | case3 b c cs h ih =>
    rw [humps, if_pos h]
    simpa using ih
  | case4 b c cs h ih =>
    rw [humps, if_neg h]
    exact ne_nil_of_mem_consHead ih

/-- The parts of a label between white space are not empty, and they hold letters and digits. -/
theorem of_mem_chunks {label w : List Char} (h : w ∈ chunks label) :
    w ≠ [] ∧ ∀ c ∈ w, c.isAlphanum = true := by
  refine ⟨ne_nil_of_mem_textWords _ w h, fun c hc => ?_⟩
  -- all that counts but white space
  have hletters : c ∈ letters label := by
    rw [← flatten_chunks]
    exact List.mem_flatten.mpr ⟨w, h, hc⟩
  exact (List.mem_filter.mp hletters).2

/-- The parts of a label between white space are small words in its file slug. -/
theorem isSmallWord_of_mem_slug {label w : List Char} (h : w ∈ (chunks label).map lower) :
    IsSmallWord w := by
  obtain ⟨chunk, hchunk, rfl⟩ := List.mem_map.mp h
  obtain ⟨hne, halphanum⟩ := of_mem_chunks hchunk
  exact isSmallWord_lower hne halphanum

/-- The words of a label are small words. -/
theorem isSmallWord_of_mem_words {label w : List Char} (h : w ∈ words label) : IsSmallWord w := by
  obtain ⟨hump, hhump, rfl⟩ := List.mem_map.mp h
  obtain ⟨chunk, hchunk, hhump⟩ := List.mem_flatMap.mp hhump
  exact isSmallWord_lower (ne_nil_of_mem_humps _ hump hhump)
    fun c hc => (of_mem_chunks hchunk).2 c (Script.mem_of_mem_humps hhump hc)

/-! ## Camel case -/

/-- Only the case of letters is changed at the start of a word. -/
theorem lower_upperFirst (w : List Char) : lower (upperFirst w) = lower w := by
  cases w with
  | nil => rfl
  | cons c cs =>
    have hc : c.toUpper.toLower = c.toLower := by
      obtain hc | hc := Script.isAlphanum_or_toUpper_eq c
      · exact (isAlphanum_cases hc).2.2.1
      · rw [hc]
    rw [upperFirst, lower, List.map_cons, hc]
    rfl

/-- Camel case holds the words, up to case. -/
theorem lower_camelOf (ws : List (List Char)) : lower (camelOf ws) = lower ws.flatten := by
  cases ws with
  | nil => rfl
  | cons w ws =>
    have hrest : lower (ws.map upperFirst).flatten = lower ws.flatten := by
      induction ws with
      | nil => rfl
      | cons v ws ih =>
        have happend : ∀ a b : List Char, lower (a ++ b) = lower a ++ lower b :=
          fun a b => List.map_append
        rw [List.map_cons, List.flatten_cons, happend, lower_upperFirst, ih, List.flatten_cons,
          happend]
    rw [camelOf, List.flatten_cons, lower, List.map_append, ← lower, ← lower, hrest, lower, lower,
      ← List.map_append]
    rfl

/-- The spelling of a label in camel case holds its letters, up to case. -/
theorem lower_camel (label : String) :
    lower (ofLabel label).camel.toList = lower (letters label.toList) := by
  rw [ofLabel, String.toList_ofList, lower_camelOf, flatten_wordsOf, lower, lower, List.map_map]
  refine List.map_congr_left fun c hc => ?_
  exact (isAlphanum_cases (List.mem_filter.mp hc).2).2.1

/-! ## File slugs -/

/-- Between its underscores, a text in snake case holds its words. -/
theorem filter_snakeOf {ws : List (List Char)} (h : ∀ w ∈ ws, '_' ∉ w) :
    (snakeOf ws).filter (· != '_') = ws.flatten := by
  -- no word loses a character
  have hword : ∀ w ∈ ws, w.filter (· != '_') = w := by
    intro w hw
    rw [List.filter_eq_self]
    intro c hc
    have hne : c ≠ '_' := fun e => h w hw (e ▸ hc)
    simpa using hne
  rw [snakeOf]
  clear h
  induction ws with
  | nil => rfl
  | cons w ws ih =>
    have ih := ih fun v hv => hword v (List.mem_cons_of_mem _ hv)
    have hw := hword w List.mem_cons_self
    cases ws with
    | nil => simpa using hw
    | cons v ws =>
      rw [List.intercalate_cons_cons, List.filter_append, List.filter_append, ih, hw,
        List.flatten_cons]
      simp

/-- The file slug of a label holds its letters in lower case. -/
theorem filter_fileSlug (label : String) :
    (ofLabel label).fileSlug.toList.filter (· != '_') = lower (letters label.toList) := by
  have hchunks : ∀ w ∈ (chunks label.toList).map lower, '_' ∉ w := fun w hw =>
    (isSmallWord_of_mem_slug hw).underscore_not_mem
  rw [ofLabel, String.toList_ofList, filter_snakeOf hchunks]
  show ((chunks label.toList).map (List.map Char.toLower)).flatten = _
  rw [← List.map_flatten, flatten_chunks]
  rfl

/-- File slugs are made of small letters, digits and underscores. -/
theorem mem_fileSlug {label : String} {c : Char} (h : c ∈ (ofLabel label).fileSlug.toList) :
    c.isLower = true ∨ c.isDigit = true ∨ c = '_' := by
  by_cases hc : c = '_'
  · exact .inr (.inr hc)
  have hmem : c ∈ (ofLabel label).fileSlug.toList.filter (· != '_') :=
    List.mem_filter.mpr ⟨h, by simpa using hc⟩
  rw [filter_fileSlug] at hmem
  obtain ⟨b, hb, rfl⟩ := List.mem_map.mp hmem
  obtain hlower | hdigit := isLower_or_isDigit_toLower (List.mem_filter.mp hb).2
  · exact .inl hlower
  · exact .inr (.inl hdigit)

/-- Labels with the same spelling in camel case have file slugs that differ in underscores only. -/
theorem filter_fileSlug_of_camel_eq {a b : String}
    (h : (forBinding a).camel = (forBinding b).camel) :
    (ofLabel a).fileSlug.toList.filter (· != '_') =
      (ofLabel b).fileSlug.toList.filter (· != '_') := by
  have hletters : ∀ label,
      lower (forBinding label).camel.toList = lower (letters label.toList) := by
    intro label
    rw [forBinding, lower_camel, String.toList_ofList, letters_dashesToSpaces]
  rw [filter_fileSlug, filter_fileSlug, ← hletters, h, hletters]

/-! ## What spellings start with -/

/-- Whether the first ASCII letter or digit of a label is a digit. -/
def startsWithDigit (label : List Char) : Bool := (letters label).head?.any Char.isDigit

/-- The case of letters does not matter for that. -/
theorem any_head?_lower {cs : List Char} (h : ∀ c ∈ cs, c.isAlphanum = true) :
    (lower cs).head?.any Char.isDigit = cs.head?.any Char.isDigit := by
  cases cs with
  | nil => rfl
  | cons c cs => exact (isAlphanum_cases (h c List.mem_cons_self)).2.2.2.1

/-- The spelling in camel case starts with a digit if the label does. -/
theorem any_head?_camel (label : String) :
    (ofLabel label).camel.toList.head?.any Char.isDigit = startsWithDigit label.toList := by
  have hcamel : ∀ c ∈ (ofLabel label).camel.toList, c.isAlphanum = true :=
    fun _ hc => Script.isAlphanum_of_mem_camel hc
  have hletters : ∀ c ∈ letters label.toList, c.isAlphanum = true :=
    fun _ hc => (List.mem_filter.mp hc).2
  rw [← any_head?_lower hcamel, lower_camel, any_head?_lower hletters, startsWithDigit]

end Promptwright.Identifiers
